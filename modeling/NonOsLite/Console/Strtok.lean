import NonOsLite.Lib.Tokens
import NonOsLite.Libc.Strtoul

namespace NonOsLite.Console
open ByteBuf Tokens

def strspn (s1 s2 : List UInt8) : Nat := (s1.takeWhile s2.contains).length

def strpbrk (s1 s2 : List UInt8) : Option Nat := s1.findIdx? s2.contains

-- Pointers are positions in the memory p; the third result is *save_ptr.
def strtokR (p : Buf) (s : Option Nat) (delim : List UInt8) (savePtr : Nat) :
    Option Nat × Buf × Nat :=
  let s := s.getD savePtr
  let s := s + strspn (cString (shift p s)) delim
  if p s = 0 then (none, p, s)
  else
    let token := s
    match strpbrk (cString (shift p token)) delim with
    | none => (some token, p, token + (cString (shift p token)).length)
    | some i => (some token, store p (token + i) [0], token + i + 1)

variable {p p' : Buf} {s : Option Nat} {delim ds w l : List UInt8} {savePtr fuel : Nat} {d : UInt8}

def HasString (p : Buf) (pos : Nat) (l : List UInt8) : Prop :=
  StartsWith (shift p pos) (l ++ [0]) ∧ 0 ∉ l ∧ l.length < 4294967296

theorem HasString.cString {pos : Nat} (h : HasString p pos l) : cString (shift p pos) = l :=
  cStringFrom_eq h.1 h.2.1 h.2.2

theorem HasString.drop {pos : Nat} (h : HasString p pos (ds ++ l)) :
    HasString p (pos + ds.length) l := by
  obtain ⟨hstart, hnul, hlen⟩ := h
  rw [List.append_assoc, startsWith_append, shift_shift] at hstart
  rw [List.length_append] at hlen
  exact ⟨hstart.2, fun hmem => hnul (List.mem_append_right ds hmem), by omega⟩

theorem HasString.congr {pos : Nat} (h : HasString p pos w)
    (ha : ∀ i, pos ≤ i → i ≤ pos + w.length → p' i = p i) : HasString p' pos w := by
  refine ⟨h.1.congr ?_, h.2⟩
  intro i hi
  rw [List.length_append, List.length_singleton] at hi
  exact ha (pos + i) (by omega) (by omega)

theorem HasString.split {pos : Nat} (h : HasString p pos (w ++ d :: l)) :
    HasString (store p (pos + w.length) [0]) pos w ∧
      HasString (store p (pos + w.length) [0]) (pos + w.length + 1) l := by
  have hbehind : HasString p (pos + w.length + 1) l := by
    have hdelim : HasString p (pos + w.length) ([d] ++ l) := h.drop
    exact hdelim.drop
  obtain ⟨hstart, hnul, hlen⟩ := h
  rw [List.append_assoc, startsWith_append] at hstart
  rw [List.length_append] at hlen
  refine ⟨⟨?_, fun hmem => hnul (List.mem_append_left _ hmem), by omega⟩, ?_⟩
  · have hword := hstart.1.congr fun i hi =>
      (store_of_lt (by omega) : store p (pos + w.length) [0] (pos + i) = p (pos + i))
    have hend := store_inside p (pos + w.length) [0] (i := 0) Nat.zero_lt_one
    exact startsWith_append.mpr ⟨hword, startsWith_cons.mpr ⟨hend, rfl⟩⟩
  · refine hbehind.congr fun i hi _ => store_of_ge ?_
    rw [List.length_singleton]
    exact hi

theorem HasString.head {pos : Nat} (h : HasString p pos l) : p pos = 0 ↔ l = [] := by
  obtain ⟨hstart, hnul, -⟩ := h
  cases l with
  | nil => exact iff_of_true (startsWith_cons.mp hstart).1 rfl
  | cons c l =>
    have hc : p pos = c := (startsWith_cons.mp hstart).1
    refine iff_of_false ?_ (List.cons_ne_nil c l)
    rintro h0
    exact hnul (by rw [← h0, hc]; exact List.mem_cons_self)

theorem strspn_append (hds : ∀ a ∈ ds, delim.contains a = true)
    (hl : ∀ a ∈ l.head?, delim.contains a = false) : strspn (ds ++ l) delim = ds.length := by
  rw [strspn, List.takeWhile_append_of_pos hds]
  cases l with
  | nil => simp
  | cons a l => rw [List.takeWhile_cons_of_neg (by rw [hl a rfl]; decide), List.append_nil]

theorem strtokR_blank (h : HasString p (s.getD savePtr) ds)
    (hds : ∀ a ∈ ds, delim.contains a = true) :
    strtokR p s delim savePtr = (none, p, s.getD savePtr + ds.length) := by
  have hspan := strspn_append (l := []) hds (fun a ha => by cases ha)
  rw [List.append_nil] at hspan
  have hend : p (s.getD savePtr + ds.length) = 0 :=
    (HasString.drop (l := []) (by rwa [List.append_nil])).head.mpr rfl
  simp only [strtokR, h.cString, hspan, hend, if_true]

theorem strtokR_word (rest : List UInt8) (h : HasString p (s.getD savePtr) (ds ++ (w ++ rest)))
    (hds : ∀ a ∈ ds, delim.contains a = true) (hw : ∀ a ∈ w, delim.contains a = false)
    (hne : w ≠ []) :
    strtokR p s delim savePtr =
      match strpbrk (w ++ rest) delim with
      | none => (some (s.getD savePtr + ds.length), p,
          s.getD savePtr + ds.length + (w ++ rest).length)
      | some i => (some (s.getD savePtr + ds.length), store p (s.getD savePtr + ds.length + i) [0],
          s.getD savePtr + ds.length + i + 1) := by
  have hspan := strspn_append (l := w ++ rest) hds (by
    intro a ha
    rw [List.head?_append_of_ne_nil w hne] at ha
    exact hw a (List.mem_of_mem_head? ha))
  have htoken := h.drop
  have hstart : p (s.getD savePtr + ds.length) ≠ 0 := by
    rw [ne_eq, htoken.head]
    simp [hne]
  simp only [strtokR, h.cString, hspan, if_neg hstart, htoken.cString]

theorem strtokR_last (h : HasString p (s.getD savePtr) (ds ++ w))
    (hds : ∀ a ∈ ds, delim.contains a = true) (hw : ∀ a ∈ w, delim.contains a = false)
    (hne : w ≠ []) :
    strtokR p s delim savePtr =
      (some (s.getD savePtr + ds.length), p, s.getD savePtr + ds.length + w.length) := by
  have hword := strtokR_word [] (by rwa [List.append_nil]) hds hw hne
  have hnone : strpbrk w delim = none := by
    rw [strpbrk, List.findIdx?_eq_none_iff]
    exact hw
  rw [List.append_nil, hnone] at hword
  exact hword

theorem strtokR_more (h : HasString p (s.getD savePtr) (ds ++ (w ++ d :: l)))
    (hds : ∀ a ∈ ds, delim.contains a = true) (hw : ∀ a ∈ w, delim.contains a = false)
    (hne : w ≠ []) (hd : delim.contains d = true) :
    strtokR p s delim savePtr =
      (some (s.getD savePtr + ds.length), store p (s.getD savePtr + ds.length + w.length) [0],
        s.getD savePtr + ds.length + w.length + 1) := by
  have hword := strtokR_word (d :: l) h hds hw hne
  have hsome : strpbrk (w ++ d :: l) delim = some w.length := by
    rw [strpbrk, List.findIdx?_append, List.findIdx?_eq_none_iff.mpr hw]
    rw [List.findIdx?_cons, hd]
    simp
  rw [hsome] at hword
  exact hword

end NonOsLite.Console
