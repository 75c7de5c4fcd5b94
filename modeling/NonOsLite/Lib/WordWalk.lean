import NonOsLite.Lib.Words

-- Walks over memory a byte or a word at a time.
namespace ByteBuf

def copyUp (mem : Buf) (dst src : Nat) : Nat → Buf
  | 0 => mem
  | n + 1 => copyUp (store mem dst [mem src]) (dst + 1) (src + 1) n

def copyDown (mem : Buf) (dst src : Nat) : Nat → Buf
  | 0 => mem
  | n + 1 => copyDown (store mem (dst + n) [mem (src + n)]) dst src n

def fillUp (mem : Buf) (dst : Nat) (c : UInt8) : Nat → Buf
  | 0 => mem
  | n + 1 => fillUp (store mem dst [c]) (dst + 1) c n

def copyWord (mem : Buf) (dst src : Nat) : Buf := putLe32 mem dst (le32 mem src)

variable {mem : Buf} {dst src m n x : Nat} {c : UInt8}

theorem store_singleton_apply : store mem dst [c] x = if x = dst then c else mem x := by
  split_ifs with h
  · rw [h]
    exact store_inside mem dst [c] (i := 0) (by simp)
  · rcases Nat.lt_or_ge x dst with hlt | hge
    · exact store_of_lt hlt
    · exact store_of_ge (by rw [List.length_singleton]; omega)

theorem copyUp_add (mem : Buf) (dst src m n : Nat) :
    copyUp mem dst src (m + n) = copyUp (copyUp mem dst src m) (dst + m) (src + m) n := by
  induction m generalizing mem dst src with
  | zero => rw [Nat.zero_add, copyUp, Nat.add_zero, Nat.add_zero]
  | succ m ih =>
    rw [Nat.succ_add_eq_add_succ, Nat.add_succ, copyUp, ih, copyUp, Nat.add_assoc, Nat.add_comm 1 m,
      Nat.add_assoc, Nat.add_comm 1 m]

theorem copyUp_eq (h : dst ≤ src ∨ src + n ≤ dst) :
    copyUp mem dst src n = copy mem dst (shift mem src) n := by
  induction n generalizing mem dst src with
  | zero =>
    funext x
    rw [copyUp, copy, if_neg (by omega)]
  | succ n ih =>
    rw [copyUp, ih (by omega)]
    funext x
    simp only [copy, shift_apply, store_singleton_apply]
    rcases Nat.lt_trichotomy x dst with hlt | rfl | hgt
    · rw [if_neg (by omega), if_neg (by omega), if_neg (by omega)]
    · rw [if_neg (by omega), if_pos rfl, if_pos (by omega), Nat.sub_self, Nat.add_zero]
    · rcases Nat.lt_or_ge x (dst + (n + 1)) with hin | hout
      · rw [if_pos (by omega), if_neg (by omega), if_pos (by omega)]
        congr 1
        omega
      · rw [if_neg (by omega), if_neg (by omega), if_neg (by omega)]

theorem copyDown_eq (h : src ≤ dst ∨ dst + n ≤ src) :
    copyDown mem dst src n = copy mem dst (shift mem src) n := by
  induction n generalizing mem with
  | zero =>
    funext x
    rw [copyDown, copy, if_neg (by omega)]
  | succ n ih =>
    rw [copyDown, ih (by omega)]
    funext x
    simp only [copy, shift_apply, store_singleton_apply]
    rcases Nat.lt_trichotomy x (dst + n) with hlt | rfl | hgt
    · rcases Nat.lt_or_ge x dst with hout | hin
      · rw [if_neg (by omega), if_neg (by omega), if_neg (by omega)]
      · rw [if_pos (by omega), if_neg (by omega), if_pos (by omega)]
    · rw [if_neg (by omega), if_pos rfl, if_pos (by omega), Nat.add_sub_cancel_left]
    · rw [if_neg (by omega), if_neg (by omega), if_neg (by omega)]

theorem putLe32_le32 (mem q : Buf) (dst src : Nat) :
    putLe32 mem dst (le32 q src) = copy mem dst (shift q src) 4 := by
  have h0 := (q src).toNat_lt
  have h1 := (q (src + 1)).toNat_lt
  have h2 := (q (src + 2)).toNat_lt
  have h3 := (q (src + 3)).toNat_lt
  have hbyte {k : Nat} {b : UInt8} (hk : k % 256 = b.toNat) : UInt8.ofNat k = b := by
    apply UInt8.toNat_inj.mp
    rwa [UInt8.toNat_ofNat']
  have hword : le32 q src = (q src).toNat + 256 * (q (src + 1)).toNat +
      65536 * (q (src + 2)).toNat + 16777216 * (q (src + 3)).toNat := by
    simp only [le32, le16, Nat.add_assoc, Nat.reduceAdd]
    omega
  rw [putLe32, hword, hbyte (b := q src) (by omega), hbyte (b := q (src + 1)) (by omega),
    hbyte (b := q (src + 2)) (by omega), hbyte (b := q (src + 3)) (by omega)]
  funext x
  rcases Nat.lt_or_ge x dst with hlt | hge
  · rw [store_of_lt hlt, copy_of_lt hlt]
  · obtain ⟨k, rfl⟩ := Nat.exists_eq_add_of_le hge
    rcases Nat.lt_or_ge k 4 with hk | hk
    · rw [store_inside _ _ _ (by simpa using hk), copy_inside _ _ _ hk, shift_apply]
      interval_cases k <;> rfl
    · rw [store_of_ge (by simpa using hk), copy_of_ge (by omega)]

theorem copyWord_eq (hdst : 4 ∣ dst) (hsrc : 4 ∣ src) :
    copyWord mem dst src = copyUp mem dst src 4 := by
  rw [copyWord, putLe32_le32, copyUp_eq (by omega)]

theorem copyUp_copyWord (hdst : 4 ∣ dst) (hsrc : 4 ∣ src) :
    copyUp (copyWord mem dst src) (dst + 4) (src + 4) n = copyUp mem dst src (4 + n) := by
  rw [copyWord_eq hdst hsrc, copyUp_add]

theorem fillUp_add (mem : Buf) (dst : Nat) (c : UInt8) (m n : Nat) :
    fillUp mem dst c (m + n) = fillUp (fillUp mem dst c m) (dst + m) c n := by
  induction m generalizing mem dst with
  | zero => rw [Nat.zero_add, fillUp, Nat.add_zero]
  | succ m ih =>
    rw [Nat.succ_add_eq_add_succ, Nat.add_succ, fillUp, ih, fillUp, Nat.add_assoc, Nat.add_comm 1 m]

theorem fillUp_eq : fillUp mem dst c n = copy mem dst (fun _ => c) n := by
  induction n generalizing mem dst with
  | zero =>
    funext x
    rw [fillUp, copy, if_neg (by omega)]
  | succ n ih =>
    rw [fillUp, ih]
    funext x
    simp only [copy, store_singleton_apply]
    rcases Nat.lt_trichotomy x dst with hlt | rfl | hgt
    · rw [if_neg (by omega), if_neg (by omega), if_neg (by omega)]
    · rw [if_neg (by omega), if_pos rfl, if_pos (by omega)]
    · rcases Nat.lt_or_ge x (dst + (n + 1)) with hin | hout
      · rw [if_pos (by omega), if_pos (by omega)]
      · rw [if_neg (by omega), if_neg (by omega), if_neg (by omega)]

theorem putLe32_fill (mem : Buf) (dst : Nat) (c : UInt8) :
    putLe32 mem dst (16843009 * c.toNat) = fillUp mem dst c 4 := by
  have hword : 16843009 * c.toNat = le32 (fun _ => c) 0 := by
    rw [le32, le16, le16]
    omega
  rw [hword, putLe32_le32, fillUp_eq]
  rfl

theorem fillUp_putLe32 :
    fillUp (putLe32 mem dst (16843009 * c.toNat)) (dst + 4) c n = fillUp mem dst c (4 + n) := by
  rw [putLe32_fill, fillUp_add]

end ByteBuf
