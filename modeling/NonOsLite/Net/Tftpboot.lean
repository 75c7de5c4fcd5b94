import Mathlib.Data.List.TakeWhile
import NonOsLite.Net.Request
import NonOsLite.Net.Storing

namespace NonOsLite
open ByteBuf InputMachine

-- sizeof(BootFile)
def bootFileSize : Nat := 128

-- The loop of copy_filename, with size as it stands before the decrement.
def copyChars : Nat → List UInt8 → List UInt8
  | size + 2, c :: src => if c = 34 then [] else c :: copyChars (size + 1) src
  | _, _ => []

def copyFilename (src : List UInt8) (size : Nat) : List UInt8 :=
  match src with
  | 34 :: src => copyChars (size - 1) src
  | src => copyChars size src

def ethEnvInit (s : Net) (filename : Option (List UInt8)) : Net :=
  { s with cfg.bootFile := copyFilename (filename.getD (ascii "zImage")) bootFileSize }

-- board is the address of the controller that board_eth_init registers, if it succeeds.
def ethInitialize (board : Option Ether) (s : Net) (filename : Option (List UInt8)) : Nat × Net :=
  let s := ethEnvInit s filename
  match board with
  | none => (0, s)
  | some enetaddr => (1, { s with cfg.enetaddr := enetaddr })

inductive Boot where
  | returned (ret : Int) (s : Net)
  | loading (s : Net)
  | kernelEntry (entry : Nat) (s : Net)

def Boot.net : Boot → Net
  | .returned _ s => s
  | .loading s => s
  | .kernelEntry _ s => s

def bootOf : Loop → Boot
  | .running s => .loading s
  | .done ret s => if ret < 0 then .returned 0 s else .kernelEntry s.cfg.loadAddr s

def tftpbootArgs (s : Net) (argv : List (List UInt8)) : Net :=
  let s := if argv.length = 3 then { s with cfg.loadAddr := (strtoul (argv.getD 2 []) 16).1 } else s
  if argv.length = 4 then { s with cfg.netServerIP := stringToIp (argv.getD 3 []) } else s

def doTftpboot (board : Option Ether) (s : Net) (argv : List (List UInt8)) (xs : List LoopInput) :
    Boot :=
  if argv.length < 2 then .returned 1 s
  else
    let (devices, s) := ethInitialize board (tftpbootArgs s argv) (some (argv.getD 1 []))
    if devices = 0 then .returned 0 s else bootOf (netLoop .tftpget s xs)

structure RequestSent (s t : Net) (server : IPaddr) (filename : List UInt8) : Prop where
  sent : ∃ payload, marks t = .tftpSend payload :: marks s ∧
    [0, 1] ++ filename ++ [0] <+: payload ∧
    StartsWith (shift t.tx.netTxPacket (netEthHdrSize t.cfg + ipUdpHdrSize)) payload ∧
    UdpHeader (shift t.tx.netTxPacket (netEthHdrSize t.cfg)) t.cfg.netOurIP server wellKnownPort
      t.tftp.tftpOurPort payload.length
  held : t.tx.netArpWaitPacketIP = server ∨ server = netBroadcastIP

structure TakesEffect (board : Option Ether) (s : Net) (argv : List (List UInt8)) (server : IPaddr)
    (filename : List UInt8) (addr : Nat) : Prop where
  request : ∃ t, doTftpboot board s argv [] = .loading t ∧ RequestSent s t server filename
  stores : ∀ xs x t, doTftpboot board s argv xs = .loading t →
    StoresFrom addr t x (doTftpboot board s argv (xs ++ [x])).net

variable {s t : Net} {server : IPaddr} {filename : List UInt8} {argv : List (List UInt8)}
  {addr size : Nat} {mac : Ether} {xs : List LoopInput} {x : LoopInput}

theorem copyChars_eq (hquote : 34 ∉ filename) (hsize : filename.length < size) :
    copyChars size filename = filename := by
  induction filename generalizing size with
  | nil => rcases size with _ | _ | size <;> rfl
  | cons c src ih =>
    rw [List.length_cons] at hsize
    obtain ⟨size, rfl⟩ : ∃ k, size = k + 2 := ⟨size - 2, by omega⟩
    have hc : c ≠ 34 := fun h => hquote (h ▸ List.mem_cons_self)
    rw [copyChars, if_neg hc, ih (fun h => hquote (List.mem_cons_of_mem c h)) (by omega)]

theorem copyFilename_eq (hquote : 34 ∉ filename) (hsize : filename.length < size) :
    copyFilename filename size = filename := by
  unfold copyFilename
  split
  · exact absurd List.mem_cons_self hquote
  · exact copyChars_eq hquote hsize

theorem tftpFilenameOf_plain {c : Config} (hne : c.bootFile ≠ []) (hcolon : 58 ∉ c.bootFile)
    (hlen : c.bootFile.length < maxLen) : tftpFilenameOf c = (c.netServerIP, c.bootFile) := by
  have hdrop : c.bootFile.dropWhile (· ≠ 58) = [] := by
    rw [List.dropWhile_eq_nil_iff]
    intro d hd
    exact decide_eq_true (fun h => hcolon (h ▸ hd))
  simp only [tftpFilenameOf, if_neg hne, hdrop]
  rw [List.take_of_length_le (by simp only [maxLen] at hlen ⊢; omega)]

theorem netSendUdpPacket_packet (s : Net) (ether : EtherPtr) (hserver : server ≠ 0)
    (dport sport len : Nat) :
    (netSendUdpPacket s ether server dport sport len).tx.netTxPacket =
      udpFrame s.cfg s.tx.netIPID s.tx.netTxPacket (etherAt s (etherOf ether server)) server dport
        sport len := by
  unfold netSendUdpPacket udpFrame
  simp only [etherOf_eq, netSetEther_size, etherAt_packet]
  simp only [if_neg hserver]
  split
  · have hask := arpRequest_asked
    exact congrArg Transmit.netTxPacket (hask _).tx
  · rfl

theorem tftpPayload_request (hstate : s.tftp.tftpState = .sendRrq) :
    ∃ rest, tftpPayload s = [0, 1] ++ s.tftp.tftpFilename ++ [0] ++ rest ∧ rest.length < 64 := by
  have htext : tftpPayload s = requestPayload tftpTimeoutMSecs tftpBlkSizeOption
      s.tftp.tftpFilename s.tx.netTxPacket (netEthHdrSize s.cfg + ipUdpHdrSize) := by
    simp only [tftpPayload, tftpPacket_request hstate]
    rfl
  rw [requestPayload_eq (by decide) (by decide), requestFields, Terminated.encode_cons] at htext
  refine ⟨Terminated.encode 0 (requestFields tftpTimeoutMSecs tftpBlkSizeOption
    s.tftp.tftpFilename).tail ++ [0], ?_, ?_⟩
  · rw [htext]
    simp [requestFields]
  · have hseconds : (decimal (tftpTimeoutMSecs / 1000)).length ≤ 10 := decimal_length (by decide)
    have hblksize : (decimal tftpBlkSizeOption).length ≤ 10 := decimal_length (by decide)
    have hwords : (ascii "octet").length = 5 ∧ (ascii "timeout").length = 7 ∧
        (ascii "blksize").length = 7 := by decide
    simp only [requestFields, List.tail_cons, Terminated.encode, List.flatMap_cons,
      List.flatMap_nil, List.length_append, List.length_cons, List.length_nil]
    omega

theorem tftpSend_packet (hserver : s.tftp.tftpRemoteIP ≠ 0) :
    ∃ addr b, StartsWith (shift b (netEthHdrSize s.cfg + ipUdpHdrSize)) (tftpPayload s) ∧
      (tftpSend s).tx.netTxPacket = udpFrame s.cfg s.tx.netIPID b addr s.tftp.tftpRemoteIP
        s.tftp.tftpRemotePort s.tftp.tftpOurPort (tftpPayload s).length := by
  refine ⟨etherAt s (etherOf .netServerEther s.tftp.tftpRemoteIP),
    (tftpPacket s.tftp s.tx.netTxPacket (netEthHdrSize s.cfg + ipUdpHdrSize)).1,
    startsWith_bytes _ _, ?_⟩
  rw [tftpPayload, bytes_length]
  exact netSendUdpPacket_packet _ .netServerEther hserver _ _ _

theorem tftpSend_held (hserver : s.tftp.tftpRemoteIP ≠ 0)
    (hbcast : s.tftp.tftpRemoteIP ≠ netBroadcastIP)
    (hnull : s.tx.netServerEther = netEtherNullAddr) :
    (tftpSend s).tx.netArpWaitPacketIP = s.tftp.tftpRemoteIP := by
  have hether : etherOf .netServerEther s.tftp.tftpRemoteIP = .netServerEther :=
    if_neg (not_or.mpr ⟨hserver, hbcast⟩)
  have hdest : (if s.tftp.tftpRemoteIP = 0 then netBroadcastIP else s.tftp.tftpRemoteIP) =
      s.tftp.tftpRemoteIP := if_neg hserver
  have hunresolved : Unresolved { emitEvent s (.tftpSend (tftpPayload s)) with tx.netTxPacket :=
      (tftpPacket s.tftp s.tx.netTxPacket (netEthHdrSize s.cfg + ipUdpHdrSize)).1 }
      .netServerEther s.tftp.tftpRemoteIP := by
    rw [Unresolved, hether]
    exact hnull
  exact (congrArg Transmit.netArpWaitPacketIP
    (netSendUdpPacket_holds hunresolved _ _ _).tx).trans hdest

theorem tftpSend_sent (hstate : s.tftp.tftpState = .sendRrq) (hserver : s.tftp.tftpRemoteIP ≠ 0)
    (hnull : s.tx.netServerEther = netEtherNullAddr) (hport : s.tftp.tftpRemotePort = wellKnownPort)
    (hours : s.tftp.tftpOurPort < 65536) (hlen : s.tftp.tftpFilename.length < maxLen) :
    RequestSent s (tftpSend s) s.tftp.tftpRemoteIP s.tftp.tftpFilename := by
  have hcfg := (tftpSend_sends s).cfg
  obtain ⟨rest, htext, hrest⟩ := tftpPayload_request hstate
  obtain ⟨addr, b, hb, hpacket⟩ := tftpSend_packet hserver
  have hlong : ipUdpHdrSize + (tftpPayload s).length < 65536 := by
    rw [htext]
    simp only [maxLen, ipUdpHdrSize, List.length_append, List.length_cons, List.length_nil]
      at hlen ⊢
    omega
  refine ⟨⟨tftpPayload s, (tftpSend_sends s).marks, ⟨rest, htext.symm⟩, ?_, ?_⟩, ?_⟩
  · rw [hcfg, hpacket]
    exact udpFrame_payload hb
  · rw [hcfg, tftpSend_tftp, hpacket, hport]
    exact udpFrame_header hlong (by decide) hours
  · by_cases hbcast : s.tftp.tftpRemoteIP = netBroadcastIP
    · exact Or.inr hbcast
    · exact Or.inl (tftpSend_held hserver hbcast hnull)

theorem RequestSent.congr (h : RequestSent s t server filename) {u : Net} (hu : marks u = marks s) :
    RequestSent u t server filename where
  sent := hu ▸ h.sent
  held := h.held

theorem tftpStart_sent (hserver : (tftpFilenameOf s.cfg).1 ≠ 0)
    (hlen : (tftpFilenameOf s.cfg).2.length < maxLen) :
    RequestSent s (tftpStart s) (tftpFilenameOf s.cfg).1 (tftpFilenameOf s.cfg).2 := by
  have hours (n : Nat) : 1024 + n % 3072 < 65536 := by omega
  refine RequestSent.congr (tftpSend_sent rfl hserver rfl rfl (hours _) hlen) ?_
  rfl

def bootState (mac : Ether) (s : Net) (argv : List (List UInt8)) : Net :=
  (ethInitialize (some mac) (tftpbootArgs s argv) (some (argv.getD 1 []))).2

theorem doTftpboot_some (hargc : 2 ≤ argv.length) (xs : List LoopInput) :
    doTftpboot (some mac) s argv xs =
      bootOf (netLoop .tftpget (bootState mac s argv) xs) :=
  if_neg (Nat.not_lt.mpr hargc)

theorem doTftpboot_loading (hargc : 2 ≤ argv.length) :
    doTftpboot (some mac) s argv xs = .loading t ↔
      netLoop .tftpget (bootState mac s argv) xs = .running t := by
  rw [doTftpboot_some hargc]
  cases netLoop .tftpget (bootState mac s argv) xs with
  | running u => simp [bootOf]
  | done ret u => by_cases h : ret < 0 <;> simp [bootOf, h]

theorem doTftpboot_net (hargc : 2 ≤ argv.length) (xs : List LoopInput) :
    (doTftpboot (some mac) s argv xs).net = (netLoop .tftpget (bootState mac s argv) xs).net := by
  rw [doTftpboot_some hargc]
  cases netLoop .tftpget (bootState mac s argv) xs with
  | running u => rfl
  | done ret u => by_cases h : ret < 0 <;> simp [bootOf, h, Boot.net, Loop.net]

theorem bootState_marks : marks (bootState mac s argv) = marks s := by
  simp only [bootState, ethInitialize, ethEnvInit, tftpbootArgs]
  split_ifs <;> rfl

theorem RequestSent.unique {server' : IPaddr} {filename' : List UInt8}
    (h : RequestSent s t server filename) (h' : RequestSent s t server' filename')
    (hnul : 0 ∉ filename) (hnul' : 0 ∉ filename') : server = server' ∧ filename = filename' := by
  obtain ⟨payload, hmarks, ⟨rest, htext⟩, -, hheader⟩ := h.sent
  obtain ⟨payload', hmarks', ⟨rest', htext'⟩, -, hheader'⟩ := h'.sent
  have hsame : payload = payload' := by
    rw [hmarks] at hmarks'
    simpa using hmarks'
  refine ⟨hheader.dest.symm.trans hheader'.dest, ?_⟩
  rw [← hsame, ← htext] at htext'
  exact (Terminated.field_inj hnul' hnul (by simpa using htext')).symm

theorem defaultFilename_text :
    defaultFilename (stringToIp (ascii "10.0.0.179")) = ascii "0A0000B3.img" := by
  decide +kernel

theorem started_filename (hcolon : 58 ∉ s.cfg.bootFile) (hnul : 0 ∉ s.cfg.bootFile)
    (hlen : s.cfg.bootFile.length < maxLen) :
    ∃ name, tftpFilenameOf (started s).cfg = (stringToIp (ascii "10.0.0.128"), name) ∧
      name.length < maxLen ∧ 0 ∉ name ∧ (name = s.cfg.bootFile ↔ s.cfg.bootFile ≠ []) := by
  by_cases hempty : s.cfg.bootFile = []
  · refine ⟨ascii "0A0000B3.img", ?_, by decide, by decide, ?_⟩
    · rw [started_cfg]
      simp only [tftpFilenameOf, hempty, if_true, defaultFilename_text]
      rfl
    · rw [hempty]
      decide
  · refine ⟨s.cfg.bootFile, ?_, hlen, hnul, ?_⟩
    · rw [started_cfg]
      exact tftpFilenameOf_plain hempty hcolon hlen
    · simp [hempty]

theorem doTftpboot_step (hargc : 2 ≤ argv.length)
    (h : netLoop .tftpget (bootState mac s argv) xs = .running t) (x : LoopInput) :
    (doTftpboot (some mac) s argv (xs ++ [x])).net = (netLoopStep .tftpget (.running t) x).net := by
  rw [doTftpboot_net hargc, ← h]
  simp only [netLoop, run_append, run_cons, run_nil]

theorem bootState_stores (hmac : mac ≠ netEtherNullAddr) (hargc : 2 ≤ argv.length)
    (ht : doTftpboot (some mac) s argv xs = .loading t) (x : LoopInput) :
    StoresFrom (tftpbootArgs s argv).cfg.loadAddr t x
      (doTftpboot (some mac) s argv (xs ++ [x])).net := by
  rw [doTftpboot_loading hargc] at ht
  have hall := netLoop_loadAddr (s := bootState mac s argv) hmac xs
  rw [ht] at hall
  obtain ⟨hload, hstate⟩ := hall
  have hstores := (netLoopStep_stores hstate x).2
  rw [hload] at hstores
  rw [doTftpboot_step hargc ht]
  exact hstores

theorem bootState_addr (hmac : mac ≠ netEtherNullAddr) (hargc : 2 ≤ argv.length)
    (h : ∀ x, StoresFrom addr (tftpStart (started (bootState mac s argv))) x
      (doTftpboot (some mac) s argv [x]).net) :
    u32 addr = u32 (tftpbootArgs s argv).cfg.loadAddr := by
  have hentry : netLoop .tftpget (bootState mac s argv) [] =
      .running (tftpStart (started (bootState mac s argv))) := netLoopEntry_tftpget hmac
  have hhandler := tftpget_handler (bootState mac s argv) []
  have hload := netLoop_loadAddr (s := bootState mac s argv) hmac []
  rw [hentry] at hhandler hload
  have hours (n : Nat) : 1024 + n % 3072 < 65536 := by omega
  refine (stores_addr ?_ hhandler.1 ?_ ?_).trans (congrArg u32 hload.1)
  · exact congrArg Tftp.tftpState (tftpSend_tftp _)
  · rw [show (tftpStart (started (bootState mac s argv))).tftp.tftpOurPort = _ from
      congrArg Tftp.tftpOurPort (tftpSend_tftp _)]
    exact hours _
  · intro inpkt len
    have hstep := h (.frame inpkt len)
    rwa [← List.nil_append [LoopInput.frame inpkt len], doTftpboot_step hargc hentry] at hstep

theorem takesEffect_iff (hmac : mac ≠ netEtherNullAddr) (hargc : 2 ≤ argv.length)
    (hlen : (argv.getD 1 []).length ≤ 126) (hcolon : 58 ∉ argv.getD 1 [])
    (hquote : 34 ∉ argv.getD 1 []) (hnul : 0 ∉ argv.getD 1 []) :
    TakesEffect (some mac) s argv server (argv.getD 1 []) addr ↔
      argv.getD 1 [] ≠ [] ∧ server = stringToIp (ascii "10.0.0.128") ∧
        u32 addr = u32 (tftpbootArgs s argv).cfg.loadAddr := by
  have hboot : (bootState mac s argv).cfg.bootFile = argv.getD 1 [] :=
    copyFilename_eq hquote (Nat.lt_of_le_of_lt hlen (by decide))
  have hshort : (argv.getD 1 []).length < maxLen := Nat.lt_of_le_of_lt hlen (by decide)
  obtain ⟨name, hname, hnamelen, hnamenul, hiff⟩ := started_filename
    (s := bootState mac s argv) (hboot ▸ hcolon) (hboot ▸ hnul) (hboot ▸ hshort)
  rw [hboot] at hiff
  have hentry : netLoop .tftpget (bootState mac s argv) [] =
      .running (tftpStart (started (bootState mac s argv))) := netLoopEntry_tftpget hmac
  have hsent : RequestSent s (tftpStart (started (bootState mac s argv)))
      (stringToIp (ascii "10.0.0.128")) name := by
    have hserver : stringToIp (ascii "10.0.0.128") ≠ 0 := by decide
    have hstart := tftpStart_sent (s := started (bootState mac s argv))
      (by rw [hname]; exact hserver) (by rw [hname]; exact hnamelen)
    rw [hname] at hstart
    exact hstart.congr ((started_marks _).trans bootState_marks).symm
  constructor
  · rintro ⟨⟨t, ht, hrequest⟩, hstores⟩
    rw [doTftpboot_loading hargc, hentry] at ht
    cases ht
    obtain ⟨hserver, hfile⟩ := hrequest.unique hsent hnul hnamenul
    refine ⟨hiff.mp hfile.symm, hserver, bootState_addr hmac hargc fun x => ?_⟩
    exact hstores [] x _ ((doTftpboot_loading hargc).mpr hentry)
  · rintro ⟨hne, rfl, haddr⟩
    rw [hiff.mpr hne] at hsent
    exact ⟨⟨_, (doTftpboot_loading hargc).mpr hentry, hsent⟩,
      fun xs x t ht => (bootState_stores hmac hargc ht x).congr haddr⟩

theorem tftpboot_takes_effect (hmac : mac ≠ netEtherNullAddr) (s : Net)
    (cmd loadaddr serverip : List UInt8) (hlen : filename.length ≤ 126) (hcolon : 58 ∉ filename)
    (hquote : 34 ∉ filename) (hnul : 0 ∉ filename) :
    (TakesEffect (some mac) s [cmd, filename, loadaddr] (stringToIp (ascii "10.0.0.128")) filename
        (strtoul loadaddr 16).1 ↔ filename ≠ []) ∧
      (TakesEffect (some mac) s [cmd, filename, loadaddr, serverip] (stringToIp serverip) filename
        (strtoul loadaddr 16).1 ↔ filename ≠ [] ∧
          stringToIp serverip = stringToIp (ascii "10.0.0.128") ∧
          u32 (strtoul loadaddr 16).1 = u32 s.cfg.loadAddr) := by
  constructor
  · have hargc : 2 ≤ [cmd, filename, loadaddr].length := Nat.le_succ 2
    refine (takesEffect_iff hmac hargc hlen hcolon hquote hnul).trans ?_
    exact ⟨fun h => h.1, fun h => ⟨h, rfl, rfl⟩⟩
  · have hargc : 2 ≤ [cmd, filename, loadaddr, serverip].length := by simp
    exact takesEffect_iff hmac hargc hlen hcolon hquote hnul

theorem tftpboot_takes_effect_zImage :
    TakesEffect (some (Vector.replicate 6 2)) sampleBoard
        [ascii "tftpboot", ascii "zImage", ascii "300"] (stringToIp (ascii "10.0.0.128"))
        (ascii "zImage") 0x300 ∧
      TakesEffect (some (Vector.replicate 6 2)) sampleBoard
        [ascii "tftpboot", ascii "zImage", ascii "2000000", ascii "10.0.0.128"]
        (stringToIp (ascii "10.0.0.128")) (ascii "zImage") 0x2000000 := by
  have hmac : Vector.replicate 6 2 ≠ netEtherNullAddr := by decide
  have hname : (ascii "zImage").length ≤ 126 := by decide
  have hiff (loadaddr : List UInt8) := tftpboot_takes_effect hmac sampleBoard (ascii "tftpboot")
    loadaddr (ascii "10.0.0.128") hname (by decide) (by decide) (by decide)
  exact ⟨(hiff (ascii "300")).1.mpr (by decide), (hiff (ascii "2000000")).2.mpr (by decide)⟩

theorem tftpboot_other_server : ¬∀ (mac : Ether) (s : Net)
    (cmd filename loadaddr serverip : List UInt8), mac ≠ netEtherNullAddr →
    filename.length ≤ 126 → 58 ∉ filename → 34 ∉ filename → 0 ∉ filename →
    TakesEffect (some mac) s [cmd, filename, loadaddr, serverip] (stringToIp serverip) filename
      (strtoul loadaddr 16).1 := by
  intro h
  have heffect := h (Vector.replicate 6 2) sampleBoard (ascii "tftpboot") (ascii "zImage")
    (ascii "2000000") (ascii "10.0.0.1") (by decide) (by decide) (by decide) (by decide) (by decide)
  have hargc : 2 ≤ [ascii "tftpboot", ascii "zImage", ascii "2000000", ascii "10.0.0.1"].length := by
    decide
  have hserver := ((takesEffect_iff (by decide) hargc (by decide) (by decide) (by decide)
    (by decide)).mp heffect).2.1
  exact absurd hserver (by decide)

end NonOsLite
