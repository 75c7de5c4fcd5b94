import Mathlib.Data.List.GetD
import NonOsLite.Net.Tftp

namespace NonOsLite
open ByteBuf

structure Numeral where
  digits : List UInt8
  nonempty : digits ≠ []
  all_digits : ∀ c ∈ digits, isdigit c = true

def Numeral.value (v : Numeral) : Nat := v.digits.foldl digitValue 0

inductive OackOption where
  | timeout (v : Numeral)
  | blksize (v : Numeral)

namespace OackOption

def name : OackOption → List UInt8
  | timeout _ => ascii "timeout"
  | blksize _ => ascii "blksize"

def numeral : OackOption → Numeral
  | timeout v => v
  | blksize v => v

def encode (o : OackOption) : List UInt8 := o.name ++ (0 :: o.numeral.digits ++ [0])

end OackOption

def oackBody (opts : List OackOption) : List UInt8 := opts.flatMap OackOption.encode

def oackDatagram (opts : List OackOption) : List UInt8 := [0, 6] ++ oackBody opts

theorem foldl_select {P : Nat → Prop} [DecidablePred P] {f : Nat → Nat} {l : List Nat} {v init : Nat}
    (h : ∀ i ∈ l, P i → f i = v) (hv : (∃ i ∈ l, P i) ∨ init = v) :
    l.foldl (fun acc i => if P i then f i else acc) init = v := by
  induction l generalizing init with
  | nil => simpa using hv
  | cons i l ih =>
    rw [List.foldl_cons]
    refine ih (fun j hj => h j (List.mem_cons_of_mem _ hj)) ?_
    by_cases hi : P i
    · rw [if_pos hi]
      exact Or.inr (h i List.mem_cons_self hi)
    · rw [if_neg hi]
      refine hv.imp_left ?_
      rintro ⟨j, hj, hPj⟩
      rcases List.mem_cons.mp hj with rfl | hj
      · exact absurd hPj hi
      · exact ⟨j, hj, hPj⟩

theorem name_length (o : OackOption) : o.name.length = 7 := by
  cases o <;> rfl

theorem encode_length (o : OackOption) : o.encode.length = 9 + o.numeral.digits.length := by
  simp only [OackOption.encode, List.length_append, name_length, List.length_cons, List.length_nil]
  omega

theorem encode_b {o : OackOption} {i : Nat} (hi : i < o.encode.length)
    (hb : o.encode.getD i 0 = 98) : i = 0 ∧ ∃ v, o = .blksize v := by
  have hname := name_length o
  by_cases h7 : i < 7
  · rw [OackOption.encode, List.getD_append _ _ _ _ (by omega)] at hb
    cases o with
    | timeout v =>
      simp only [OackOption.name] at hb
      interval_cases i <;> exact absurd hb (by decide)
    | blksize v =>
      simp only [OackOption.name] at hb
      refine ⟨?_, v, rfl⟩
      interval_cases i
      · rfl
      all_goals exact absurd hb (by decide)
  · rw [OackOption.encode, List.getD_append_right _ _ _ _ (by omega), hname] at hb
    rw [encode_length] at hi
    have hmem : (98 : UInt8) ∈ 0 :: o.numeral.digits ++ [0] := by
      rw [← hb, List.getD_eq_getElem _ _ (by simp; omega)]
      exact List.getElem_mem _
    simp only [List.cons_append, List.mem_cons, List.mem_append, List.not_mem_nil, or_false] at hmem
    rcases hmem with h | h | h
    · exact absurd h (by decide)
    · exact absurd (o.numeral.all_digits _ h) (by decide)
    · exact absurd h (by decide)

theorem blksize_encode (v : Numeral) :
    (OackOption.blksize v).encode = ascii "blksize" ++ [0] ++ (v.digits ++ [0]) := by
  simp [OackOption.encode, OackOption.name, OackOption.numeral]

theorem strcmp_startsWith {p : Buf} {cs rest : List UInt8} (h : StartsWith p (cs ++ [0] ++ rest)) :
    strcmp p cs = 0 := by
  obtain ⟨hs, hz⟩ := startsWith_append.mp (startsWith_append.mp h).1
  rw [strcmp_eq_zero]
  constructor
  · intro i hi
    exact hs.getD hi 0
  · simpa using hz.getD (i := 0) (by simp) 0

theorem scan_sound {opts : List OackOption} {p : Buf} (hp : StartsWith p (oackBody opts)) {i : Nat}
    (hi : i < (oackBody opts).length) (hm : strcmp (shift p i) (ascii "blksize") = 0) :
    ∃ v, .blksize v ∈ opts ∧ StartsWith (shift p (i + 8)) (v.digits ++ [0]) ∧
      i + 8 + v.digits.length < (oackBody opts).length := by
  induction opts generalizing p i with
  | nil => simp [oackBody] at hi
  | cons o opts ih =>
    rw [oackBody, List.flatMap_cons, startsWith_append] at hp
    by_cases hhead : i < o.encode.length
    · have hb : o.encode.getD i 0 = 98 := by
        rw [← hp.1.getD hhead 0]
        exact (strcmp_eq_zero.mp hm).1 0 (by decide)
      obtain ⟨rfl, v, rfl⟩ := encode_b hhead hb
      have h := hp.1
      rw [blksize_encode, startsWith_append] at h
      refine ⟨v, List.mem_cons_self, h.2, ?_⟩
      rw [oackBody, List.flatMap_cons, List.length_append, encode_length, OackOption.numeral]
      omega
    · obtain ⟨j, rfl⟩ : ∃ j, i = o.encode.length + j := ⟨i - o.encode.length, by omega⟩
      rw [oackBody, List.flatMap_cons, List.length_append] at hi
      obtain ⟨v, hv, hs, hbound⟩ := ih hp.2 (i := j) (by rw [oackBody]; omega) (by rwa [shift_shift])
      refine ⟨v, List.mem_cons_of_mem _ hv, ?_, ?_⟩
      · rwa [shift_shift, ← Nat.add_assoc] at hs
      · rw [oackBody] at hbound
        rw [oackBody, List.flatMap_cons, List.length_append]
        omega

theorem scan_complete {opts : List OackOption} {p : Buf} {v : Numeral}
    (hp : StartsWith p (oackBody opts)) (hv : .blksize v ∈ opts) :
    ∃ i, i + 8 < (oackBody opts).length ∧ strcmp (shift p i) (ascii "blksize") = 0 := by
  induction opts generalizing p with
  | nil => simp at hv
  | cons o opts ih =>
    rw [oackBody, List.flatMap_cons, startsWith_append] at hp
    rw [oackBody, List.flatMap_cons, List.length_append]
    rcases List.mem_cons.mp hv with rfl | hv
    · refine ⟨0, ?_, ?_⟩
      · rw [encode_length]
        omega
      · rw [shift_zero]
        exact strcmp_startsWith (blksize_encode v ▸ hp.1)
    · obtain ⟨i, hi, hm⟩ := ih hp.2 hv
      refine ⟨o.encode.length + i, ?_, ?_⟩
      · rw [oackBody] at hi
        omega
      · rwa [shift_shift] at hm

theorem strtoul_numeral {p : Buf} {v : Numeral} (h : StartsWith p (v.digits ++ [0]))
    (hlen : v.digits.length < 4294967296) : (strtoul (cString p) 10).1 = u32 v.value := by
  obtain ⟨hd, hz⟩ := startsWith_append.mp h
  rw [strtoul_cString (k := v.digits.length) hlen, hd]
  · rfl
  · intro i hi
    rw [hd.getD hi 0, List.getD_eq_getElem _ _ hi]
    exact v.all_digits _ (List.getElem_mem _)
  · have h0 : p v.digits.length = 0 := by simpa using hz.getD (i := 0) (by simp) 0
    rw [h0]
    rfl

theorem tftpOackBlkSize_options {opts : List OackOption} {p : Buf} {blkSize cur : Nat}
    (hp : StartsWith p (oackBody opts)) (hlen : (oackBody opts).length < 4294967296)
    (hlt : blkSize < 65536) (hv : ∀ v, .blksize v ∈ opts → v.value = blkSize)
    (hcur : (∃ v, .blksize v ∈ opts) ∨ cur = blkSize) :
    tftpOackBlkSize p (oackBody opts).length cur = blkSize := by
  rw [tftpOackBlkSize]
  refine foldl_select ?_ ?_
  · intro i hi hm
    have hi := List.mem_range.mp hi
    obtain ⟨v, hmem, hs, hbound⟩ := scan_sound hp (i := i) (by omega) hm
    rw [strtoul_numeral hs (by omega), hv v hmem, u32_of_lt (by omega), u16_of_lt hlt]
  · refine hcur.imp_left ?_
    rintro ⟨v, hmem⟩
    obtain ⟨i, hi, hm⟩ := scan_complete hp hmem
    exact ⟨i, List.mem_range.mpr (by omega), hm⟩

end NonOsLite
