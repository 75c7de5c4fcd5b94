import Mathlib.Data.List.Infix
import Mathlib.Data.List.TakeWhile
import NonOsLite.Lib.LineEdit
import NonOsLite.Libc.CInt

namespace NonOsLite.Console
open BoundedSink InputMachine LineEdit

def cmdLen : Nat := 50

def scanfLine : Nat := 256

def backspKey : UInt8 := 0x08
def returnKey : UInt8 := 0x0A
def deleteKey : UInt8 := 0x7F

def ftuartGetc (rbr : UInt8) : UInt8 := if rbr = 13 then 10 else rbr

abbrev Stores := List (Nat × UInt8)

-- cp is buf + count throughout.
def scanStringLoop (count : Nat) (stores : Stores) : List UInt8 → Option (Nat × Stores)
  | [] => none
  | key :: keys =>
      let ch := ftuartGetc key
      if ch = returnKey then
        some (count, if count < 256 then stores ++ [(count, 0)] else stores)
      else if ch = backspKey ∨ ch = deleteKey then
        if count ≠ 0 then scanStringLoop (count - 1) (stores ++ [(count - 1, 0)]) keys
        else scanStringLoop count stores keys
      else if 0x1F < ch ∧ ch < 0x7F ∧ count < 256 then
        scanStringLoop (count + 1) (stores ++ [(count, ch)]) keys
      else scanStringLoop count stores keys

def scanString (keys : List UInt8) : Option (Nat × Stores) := scanStringLoop 0 [] keys

-- ftuart_getc returns an unsigned char, so c is never -1.
def getsLoop (i : Nat) (stores : Stores) : List UInt8 → Option Stores
  | [] => none
  | key :: keys =>
      let c := ftuartGetc key
      if c = deleteKey ∨ c = backspKey then
        if i ≠ 0 then getsLoop (i - 1) (stores ++ [(i, 0)]) keys else getsLoop i stores keys
      else if c ≠ 13 ∧ c ≠ 10 then
        if c ≠ 0 then getsLoop (i + 1) (stores ++ [(i, c)]) keys
        else some (stores ++ [(i, c)] ++ [(i + 1, 0)])
      else some (stores ++ [(i, 0)])

def gets (keys : List UInt8) : Option Stores := getsLoop 0 [] keys

def scanStringKey (key : UInt8) : Key UInt8 :=
  let ch := ftuartGetc key
  if ch = backspKey ∨ ch = deleteKey then .erase
  else if 0x1F < ch ∧ ch < 0x7F then .append ch
  else .ignore

def getsKey (key : UInt8) : Key UInt8 :=
  let c := ftuartGetc key
  if c = backspKey ∨ c = deleteKey then .erase
  else if c ≠ 0 ∧ c ≠ returnKey then .append c
  else .ignore

def scanStringEditor : Editor UInt8 := ⟨0, (· < 256), (· - 1)⟩

def getsEditor : Editor UInt8 := ⟨0, fun _ => true, id⟩

def scanStringText (keys : List UInt8) : List UInt8 := text (keys.map scanStringKey)

def getsText (keys : List UInt8) : List UInt8 := text (keys.map getsKey)

def ScanStringFits (keys : List UInt8) : Prop :=
  (∀ pre, pre <+: keys → (scanStringText pre).length ≤ cmdLen) ∧
    (scanStringText keys).length < cmdLen

def beforeNul (keys : List UInt8) : List UInt8 := keys.takeWhile (· ≠ 0)

-- The text never fills the line; a NUL key counts as a character and ends the input, so no later
-- key may change the text.
def GetsFits (keys : List UInt8) : Prop :=
  (∀ pre, pre <+: beforeNul keys → (getsText pre).length < scanfLine) ∧
    (0 ∈ keys → (getsText (beforeNul keys)).length + 1 < scanfLine ∧
      getsText keys = getsText (beforeNul keys))

def NoReturn (keys : List UInt8) : Prop := ∀ key ∈ keys, ftuartGetc key ≠ returnKey

instance : DecidablePred NoReturn := fun keys =>
  inferInstanceAs (Decidable (∀ key ∈ keys, ftuartGetc key ≠ returnKey))

instance (keys : List UInt8) : Decidable (ScanStringFits keys) :=
  decidable_of_iff ((∀ pre ∈ keys.inits, (scanStringText pre).length ≤ cmdLen) ∧
    (scanStringText keys).length < cmdLen) (by simp only [List.mem_inits, ScanStringFits])

instance (keys : List UInt8) : Decidable (GetsFits keys) :=
  decidable_of_iff
    ((∀ pre ∈ (beforeNul keys).inits, (getsText pre).length < scanfLine) ∧
      (0 ∈ keys → (getsText (beforeNul keys)).length + 1 < scanfLine ∧
        getsText keys = getsText (beforeNul keys)))
    (by simp only [List.mem_inits, GetsFits])

variable {keys : List UInt8} {key ret : UInt8} {c : Cursor UInt8}

theorem scanStringLoop_key (h : ftuartGetc key ≠ returnKey) :
    scanStringLoop c.pos c.writes (key :: keys) =
      scanStringLoop (scanStringEditor.step c (scanStringKey key)).pos
        (scanStringEditor.step c (scanStringKey key)).writes keys := by
  rw [scanStringLoop, scanStringKey]
  by_cases herase : ftuartGetc key = backspKey ∨ ftuartGetc key = deleteKey
  · simp only [if_neg h, if_pos herase, Editor.step]
    split_ifs <;> rfl
  · by_cases hprint : 0x1F < ftuartGetc key ∧ ftuartGetc key < 0x7F
    · by_cases hroom : c.pos < 256
      · simp [h, herase, hprint, hroom, Editor.step, scanStringEditor]
      · simp [h, herase, hprint, hroom, Editor.step, scanStringEditor]
    · have hnone : ¬(0x1F < ftuartGetc key ∧ ftuartGetc key < 0x7F ∧ c.pos < 256) :=
        fun hall => hprint ⟨hall.1, hall.2.1⟩
      simp only [if_neg h, if_neg herase, if_neg hprint, if_neg hnone, Editor.step]

theorem scanStringLoop_run (h : NoReturn keys) (hret : ftuartGetc ret = returnKey) :
    let c' := run scanStringEditor.step c (keys.map scanStringKey)
    scanStringLoop c.pos c.writes (keys ++ [ret]) =
      some (c'.pos, if c'.pos < 256 then c'.writes ++ [(c'.pos, 0)] else c'.writes) := by
  induction keys generalizing c with
  | nil =>
    rw [List.nil_append, scanStringLoop]
    simp only [if_pos hret]
    rfl
  | cons key keys ih =>
    rw [List.cons_append, scanStringLoop_key (h key List.mem_cons_self)]
    exact ih fun k hk => h k (List.mem_cons_of_mem key hk)

theorem scanString_text (h : NoReturn keys) (hret : ftuartGetc ret = returnKey) :
    Edits 0 cmdLen ((scanString (keys ++ [ret])).map Prod.snd) (scanStringText keys) ↔
      ScanStringFits keys := by
  have hroom : ∀ n ≤ cmdLen, scanStringEditor.room n = true := by
    intro n hn
    have h50 : n ≤ 50 := hn
    exact decide_eq_true (show n < 256 by omega)
  have herase : ∀ n, n - 1 ≤ scanStringEditor.eraseAt n := fun n => Nat.le_refl _
  have hrun := scanStringLoop_run (c := ⟨0, []⟩) h hret
  have htracks : Tracks cmdLen ⟨0, []⟩ ([] : List UInt8) := tracks_nil cmdLen
  have hfits : Meets edit (KeyFits scanStringEditor cmdLen) [] (keys.map scanStringKey) ↔
      ∀ pre, pre <+: keys → (scanStringText pre).length ≤ cmdLen := by
    rw [meets_erase_last (fun _ => rfl) (Nat.zero_le _), forall_prefix_map]
    rfl
  have hconcat := edits_concat 0 (keys.map scanStringKey) hroom herase
  rw [scanString, ScanStringFits, ← hfits]
  simp only at hrun
  rw [hrun, Option.map_some]
  by_cases hpos : (run scanStringEditor.step ⟨0, []⟩ (keys.map scanStringKey)).pos < 256
  · rw [if_pos hpos]
    exact hconcat
  · rw [if_neg hpos]
    have hfar (hm : Meets edit (KeyFits scanStringEditor cmdLen) [] (keys.map scanStringKey)) :
        False := by
      have hend := htracks.run hroom herase hm
      have hlen : _ ≤ 50 := hend.length
      rw [← hend.pos] at hlen
      omega
    constructor
    · rintro ⟨ws, hws, hin, -⟩
      obtain rfl := Option.some.inj hws
      exact (hfar ((htracks.inside_iff hroom herase).mp hin)).elim
    · exact fun hm => (hfar hm.1).elim

theorem ftuartGetc_ne (key : UInt8) : ftuartGetc key ≠ 13 ∧ (ftuartGetc key = 0 ↔ key = 0) := by
  revert key
  exact forall_byte (by decide +kernel)

theorem getsLoop_key (h : ftuartGetc key ≠ returnKey) (h0 : key ≠ 0) :
    getsLoop c.pos c.writes (key :: keys) =
      getsLoop (getsEditor.step c (getsKey key)).pos (getsEditor.step c (getsKey key)).writes
        keys := by
  have hzero : ftuartGetc key ≠ 0 := fun hz => h0 ((ftuartGetc_ne key).2.mp hz)
  have hline : ftuartGetc key ≠ 13 ∧ ftuartGetc key ≠ 10 := ⟨(ftuartGetc_ne key).1, h⟩
  rw [getsLoop, getsKey]
  simp only [or_comm (a := ftuartGetc key = deleteKey)]
  by_cases herase : ftuartGetc key = backspKey ∨ ftuartGetc key = deleteKey
  · simp only [if_pos herase, Editor.step]
    split_ifs <;> rfl
  · have happend : ftuartGetc key ≠ 0 ∧ ftuartGetc key ≠ returnKey := ⟨hzero, h⟩
    simp only [if_neg herase, if_pos hline, if_pos hzero, if_pos happend, Editor.step]
    rfl

theorem getsLoop_run (rest : List UInt8) (h : NoReturn keys) (h0 : ∀ key ∈ keys, key ≠ 0) :
    getsLoop c.pos c.writes (keys ++ rest) =
      getsLoop (run getsEditor.step c (keys.map getsKey)).pos
        (run getsEditor.step c (keys.map getsKey)).writes rest := by
  induction keys generalizing c with
  | nil => rfl
  | cons key keys ih =>
    rw [List.cons_append, getsLoop_key (h key List.mem_cons_self) (h0 key List.mem_cons_self)]
    exact ih (fun k hk => h k (List.mem_cons_of_mem key hk))
      (fun k hk => h0 k (List.mem_cons_of_mem key hk))

theorem getsText_zero (keys : List UInt8) : (0 : UInt8) ∉ getsText keys := by
  intro hmem
  obtain ⟨key, -, hkey⟩ := List.mem_map.mp (mem_text hmem)
  simp only [getsKey] at hkey
  split_ifs at hkey with herase happend
  exact happend.1 (Key.append.inj hkey)

theorem gets_room : ∀ n ≤ scanfLine, getsEditor.room n = true := fun _ _ => rfl

theorem gets_eraseAt : ∀ n, n - 1 ≤ getsEditor.eraseAt n := fun n => Nat.sub_le n 1

theorem getsFits_iff (keys : List UInt8) :
    Meets edit (KeyFits getsEditor scanfLine) [] (keys.map getsKey) ∧
        (getsText keys).length < scanfLine ↔
      ∀ pre, pre <+: keys → (getsText pre).length < scanfLine := by
  rw [getsText, text, meets_erase_behind (fun _ => rfl), forall_prefix_map]
  rfl

theorem gets_clean (h : NoReturn keys) (h0 : ∀ key ∈ keys, key ≠ 0)
    (hret : ftuartGetc ret = returnKey) :
    Edits 0 scanfLine (gets (keys ++ [ret])) (getsText keys) ↔
      ∀ pre, pre <+: keys → (getsText pre).length < scanfLine := by
  have hrun := getsLoop_run (c := ⟨0, []⟩) [ret] h h0
  have hend (i : Nat) (ws : Stores) : getsLoop i ws [ret] = some (ws ++ [(i, 0)]) := by
    rw [getsLoop, hret]
    rfl
  rw [hend] at hrun
  rw [gets, hrun, ← getsFits_iff]
  exact edits_concat 0 _ gets_room gets_eraseAt

theorem gets_nul {rest t : List UInt8} (h : NoReturn keys) (h0 : ∀ key ∈ keys, key ≠ 0)
    (ht : (0 : UInt8) ∉ t) :
    Edits 0 scanfLine (gets (keys ++ 0 :: rest)) t ↔
      (∀ pre, pre <+: keys → (getsText pre).length < scanfLine) ∧
        (getsText keys).length + 1 < scanfLine ∧ t = getsText keys := by
  have hrun := getsLoop_run (c := ⟨0, []⟩) (0 :: rest) h h0
  have hend (i : Nat) (ws : Stores) :
      getsLoop i ws (0 :: rest) = some (ws ++ [(i, 0)] ++ [(i + 1, 0)]) := rfl
  have htracks : Tracks scanfLine ⟨0, []⟩ ([] : List UInt8) := tracks_nil scanfLine
  rw [hend] at hrun
  rw [gets, hrun, ← getsFits_iff]
  constructor
  · rintro ⟨ws, hws, hin, hholds⟩
    obtain rfl := Option.some.inj hws
    obtain ⟨hfirst, hlast⟩ := inside_concat.mp hin
    have hmeets := (htracks.inside_iff gets_room gets_eraseAt).mp (inside_concat.mp hfirst).1
    have hcursor := htracks.run gets_room gets_eraseAt hmeets
    have hpos : _ = (getsText keys).length := hcursor.pos
    rw [hpos] at hlast hholds
    have hbefore : Holds _ (getsText keys) := hcursor.holds
    have htext := holds_outside (n := (getsText keys).length + 1) (holds_append hbefore 0)
      (by simp) 0
    exact ⟨⟨hmeets, by omega⟩, hlast, hholds.unique htext ht (getsText_zero keys)⟩
  · rintro ⟨⟨hmeets, -⟩, hlen, rfl⟩
    have hcursor := htracks.run gets_room gets_eraseAt hmeets
    have hpos : _ = (getsText keys).length := hcursor.pos
    have hbefore : Holds _ (getsText keys) := hcursor.holds
    rw [hpos]
    refine ⟨_, rfl, inside_concat.mpr ⟨inside_concat.mpr ⟨hcursor.inside, by omega⟩, hlen⟩, ?_⟩
    exact holds_outside (holds_append hbefore 0) (by simp) 0

theorem gets_text (h : NoReturn keys) (hret : ftuartGetc ret = returnKey) :
    Edits 0 scanfLine (gets (keys ++ [ret])) (getsText keys) ↔ GetsFits keys := by
  have hsplit := List.takeWhile_append_dropWhile (p := (· ≠ 0)) (l := keys)
  have hnonzero : ∀ key ∈ keys.takeWhile (· ≠ 0), key ≠ 0 := by
    intro key hkey
    simpa using List.mem_takeWhile_imp hkey
  have hbefore : NoReturn (keys.takeWhile (· ≠ 0)) :=
    fun key hkey => h key ((List.takeWhile_sublist _).mem hkey)
  rw [GetsFits, beforeNul]
  cases hrest : keys.dropWhile (· ≠ 0) with
  | nil =>
    rw [hrest, List.append_nil] at hsplit
    rw [hsplit] at hnonzero ⊢
    rw [gets_clean h hnonzero hret]
    exact ⟨fun hm => ⟨hm, fun hmem => absurd rfl (hnonzero 0 hmem)⟩, fun hm => hm.1⟩
  | cons key after =>
    obtain rfl : key = 0 := by
      have hnot := List.head?_dropWhile_not (· ≠ 0) keys
      rw [hrest] at hnot
      simpa using hnot
    have hmem : (0 : UInt8) ∈ keys := by
      rw [← hsplit, hrest]
      exact List.mem_append_right _ List.mem_cons_self
    have hkeys : keys ++ [ret] = keys.takeWhile (· ≠ 0) ++ 0 :: (after ++ [ret]) := by
      rw [← List.cons_append, ← List.append_assoc, ← hrest, hsplit]
    rw [hkeys, gets_nul hbefore hnonzero (getsText_zero keys)]
    exact and_congr_right fun _ => ⟨fun hm _ => hm, fun hm => hm hmem⟩

theorem line_editors (h : NoReturn keys) (hret : ftuartGetc ret = returnKey) :
    (Edits 0 cmdLen ((scanString (keys ++ [ret])).map Prod.snd) (scanStringText keys) ↔
      ScanStringFits keys) ∧
    (Edits 0 scanfLine (gets (keys ++ [ret])) (getsText keys) ↔ GetsFits keys) :=
  ⟨scanString_text h hret, gets_text h hret⟩

theorem line_editors_erase :
    Edits 0 cmdLen ((scanString (ascii "md 0" ++ [8] ++ ascii "100" ++ [13])).map Prod.snd)
      (ascii "md 100") ∧
    Edits 0 scanfLine (gets (ascii "12" ++ [127] ++ ascii "3" ++ [10])) (ascii "13") := by
  have hscan := (line_editors (show NoReturn (ascii "md 0" ++ [8] ++ ascii "100") by decide +kernel)
    (show ftuartGetc 13 = returnKey by decide +kernel)).1
  have hgets := (line_editors (show NoReturn (ascii "12" ++ [127] ++ ascii "3") by decide +kernel)
    (show ftuartGetc 10 = returnKey by decide +kernel)).2
  exact ⟨hscan.mpr (by decide +kernel), hgets.mpr (by decide +kernel)⟩

theorem scan_string_overrun : ¬∀ (keys : List UInt8) (ret : UInt8), NoReturn keys →
    ftuartGetc ret = returnKey →
    Edits 0 cmdLen ((scanString (keys ++ [ret])).map Prod.snd) (scanStringText keys) ∧
      Edits 0 scanfLine (gets (keys ++ [ret])) (getsText keys) := by
  intro h
  obtain ⟨⟨ws, hws, hin, -⟩, -⟩ := h (List.replicate 60 65) 13 (by decide +kernel) (by decide)
  have hstored : (50, 65) ∈ ws := by
    have heq : (scanString (List.replicate 60 65 ++ [13])).map Prod.snd =
        some (stamp 0 (List.replicate 60 65 ++ [0])) := by decide +kernel
    rw [heq] at hws
    rw [← Option.some.inj hws]
    decide +kernel
  exact absurd (hin _ hstored) (by decide)

end NonOsLite.Console
