import Mathlib.Tactic

namespace ByteBuf

abbrev Buf := Nat → UInt8

def shift (b : Buf) (n : Nat) : Buf := fun i => b (n + i)

def store (b : Buf) (off : Nat) (bs : List UInt8) : Buf :=
  fun i => if off ≤ i ∧ i < off + bs.length then bs.getD (i - off) 0 else b i

def copy (b : Buf) (off : Nat) (src : Buf) (n : Nat) : Buf :=
  fun i => if off ≤ i ∧ i < off + n then src (i - off) else b i

def mapFrom (b : Buf) (off : Nat) (f : Buf → Buf) : Buf :=
  fun i => if i < off then b i else f (shift b off) (i - off)

def bytes (b : Buf) (n : Nat) : List UInt8 := (List.range n).map b

def Agree (n : Nat) (p q : Buf) : Prop := ∀ i, i < n → p i = q i

def StartsWith (p : Buf) (bs : List UInt8) : Prop := bytes p bs.length = bs

instance (p : Buf) (bs : List UInt8) : Decidable (StartsWith p bs) :=
  inferInstanceAs (Decidable (bytes p bs.length = bs))

def be16 (b : Buf) (off : Nat) : Nat := 256 * (b off).toNat + (b (off + 1)).toNat

def le16 (b : Buf) (off : Nat) : Nat := (b off).toNat + 256 * (b (off + 1)).toNat

def le32 (b : Buf) (off : Nat) : Nat := le16 b off + 65536 * le16 b (off + 2)

def putBe16 (b : Buf) (off v : Nat) : Buf := store b off [UInt8.ofNat (v / 256), UInt8.ofNat v]

def putLe16 (b : Buf) (off v : Nat) : Buf := store b off [UInt8.ofNat v, UInt8.ofNat (v / 256)]

def putLe32 (b : Buf) (off v : Nat) : Buf :=
  store b off [UInt8.ofNat v, UInt8.ofNat (v / 256), UInt8.ofNat (v / 65536),
    UInt8.ofNat (v / 16777216)]

variable {b p q : Buf} {i n off v : Nat} {bs : List UInt8}

@[simp] theorem shift_apply : shift b n i = b (n + i) := rfl

@[simp] theorem shift_zero : shift b 0 = b := by
  funext i
  simp

theorem shift_shift (m : Nat) : shift (shift b n) m = shift b (n + m) := by
  funext i
  simp [Nat.add_assoc]

theorem store_of_lt (h : i < off) : store b off bs i = b i := by
  have : ¬ (off ≤ i ∧ i < off + bs.length) := by omega
  simp [store, this]

theorem store_of_ge (h : off + bs.length ≤ i) : store b off bs i = b i := by
  have : ¬ (off ≤ i ∧ i < off + bs.length) := by omega
  simp [store, this]

theorem store_inside (b : Buf) (off : Nat) (bs : List UInt8) (h : i < bs.length) :
    store b off bs (off + i) = bs.getD i 0 := by
  simp [store, h]

theorem shift_store : shift (store b (n + off) bs) n = store (shift b n) off bs := by
  funext i
  simp only [shift_apply, store]
  have hiff : n + off ≤ n + i ∧ n + i < n + off + bs.length ↔ off ≤ i ∧ i < off + bs.length := by
    omega
  simp only [hiff, Nat.add_sub_add_left]

theorem shift_store_self (b : Buf) (n : Nat) (bs : List UInt8) :
    shift (store b n bs) n = store (shift b n) 0 bs :=
  show shift (store b (n + 0) bs) n = store (shift b n) 0 bs from shift_store

@[simp] theorem store_nil : store b off [] = b := by
  funext i
  by_cases h : i < off
  · exact store_of_lt h
  · exact store_of_ge (by simpa using h)

theorem store_append (b : Buf) (off : Nat) (bs cs : List UInt8) :
    store (store b off bs) (off + bs.length) cs = store b off (bs ++ cs) := by
  funext i
  simp only [store, List.length_append]
  rcases Nat.lt_or_ge i (off + bs.length) with hlt | hge
  · rw [if_neg (by omega)]
    by_cases hin : off ≤ i
    · rw [if_pos ⟨hin, hlt⟩, if_pos ⟨hin, by omega⟩, List.getD_eq_getElem?_getD,
        List.getD_eq_getElem?_getD, List.getElem?_append_left (by omega)]
    · rw [if_neg (by omega), if_neg (by omega)]
  · rcases Nat.lt_or_ge i (off + bs.length + cs.length) with hin | hout
    · rw [if_pos ⟨hge, hin⟩, if_pos ⟨by omega, by omega⟩,
        List.getD_eq_getElem?_getD, List.getD_eq_getElem?_getD,
        List.getElem?_append_right (by omega), Nat.sub_sub]
    · rw [if_neg (by omega), if_neg (by omega), if_neg (by omega)]

theorem store_cons {c : UInt8} :
    store (store b off [c]) (off + 1) bs = store b off (c :: bs) :=
  store_append b off [c] bs

theorem copy_of_lt {src : Buf} (h : i < off) : copy b off src n i = b i := by
  have : ¬ (off ≤ i ∧ i < off + n) := by omega
  simp [copy, this]

theorem copy_of_ge {src : Buf} (h : off + n ≤ i) : copy b off src n i = b i := by
  have : ¬ (off ≤ i ∧ i < off + n) := by omega
  simp [copy, this]

theorem copy_inside (b : Buf) (off : Nat) (src : Buf) (h : i < n) :
    copy b off src n (off + i) = src i := by
  simp [copy, h]

theorem copy_congr (b : Buf) (off : Nat) (h : Agree n p q) : copy b off p n = copy b off q n := by
  funext i
  simp only [copy]
  split_ifs with hi
  · exact h (i - off) (by omega)
  · rfl

theorem mapFrom_of_lt {f : Buf → Buf} (h : i < off) : mapFrom b off f i = b i := by
  simp [mapFrom, h]

@[simp] theorem shift_mapFrom {f : Buf → Buf} : shift (mapFrom b off f) off = f (shift b off) := by
  funext i
  simp [mapFrom]

@[simp] theorem bytes_length : (bytes b n).length = n := by simp [bytes]

theorem bytes_getElem? (h : i < n) : (bytes b n)[i]? = some (b i) := by
  simp [bytes, h]

theorem bytes_getD (h : i < n) (d : UInt8) : (bytes b n).getD i d = b i := by
  simp [bytes, h]

theorem bytes_congr (h : Agree n p q) : bytes p n = bytes q n := by
  refine List.map_congr_left ?_
  intro i hi
  exact h i (List.mem_range.mp hi)

theorem bytes_inj (h : bytes p n = bytes q n) : Agree n p q := by
  intro i hi
  rw [← bytes_getD (b := p) hi 0, h, bytes_getD hi 0]

theorem bytes_add (m : Nat) : bytes b (m + n) = bytes b m ++ bytes (shift b m) n := by
  simp [bytes, List.range_add, Function.comp_def]

theorem StartsWith.getD (h : StartsWith p bs) (hi : i < bs.length) (d : UInt8) :
    p i = bs.getD i d := by
  have hb := bytes_getD (b := p) hi d
  rwa [h, eq_comm] at hb

theorem startsWith_iff : StartsWith p bs ↔ ∀ i < bs.length, p i = bs.getD i 0 := by
  constructor
  · intro h i hi
    exact h.getD hi 0
  · intro h
    refine List.ext_getElem bytes_length ?_
    intro i hi hi'
    simp only [bytes, List.getElem_map, List.getElem_range, h i hi']
    simp [List.getD, hi']

theorem startsWith_store (p : Buf) (bs : List UInt8) : StartsWith (store p 0 bs) bs := by
  rw [startsWith_iff]
  intro i hi
  have hin := store_inside p 0 bs hi
  rwa [Nat.zero_add] at hin

theorem startsWith_bytes (p : Buf) (n : Nat) : StartsWith p (bytes p n) := by
  rw [StartsWith, bytes_length]

theorem startsWith_append {cs : List UInt8} :
    StartsWith p (bs ++ cs) ↔ StartsWith p bs ∧ StartsWith (shift p bs.length) cs := by
  simp only [StartsWith, List.length_append, bytes_add]
  constructor
  · intro h
    exact List.append_inj h (by simp)
  · rintro ⟨hb, hc⟩
    rw [hb, hc]

theorem startsWith_cons {c : UInt8} :
    StartsWith p (c :: bs) ↔ p 0 = c ∧ StartsWith (shift p 1) bs := by
  rw [← List.singleton_append, startsWith_append]
  simp [StartsWith, bytes]

theorem StartsWith.congr (h : StartsWith p bs) (ha : Agree bs.length q p) : StartsWith q bs :=
  (bytes_congr ha).trans h

theorem Agree.mono {m : Nat} (h : Agree n p q) (hm : m ≤ n) : Agree m p q :=
  fun i hi => h i (by omega)

theorem Agree.symm (h : Agree n p q) : Agree n q p := fun i hi => (h i hi).symm

theorem Agree.shift {m : Nat} (h : Agree (m + n) p q) : Agree n (shift p m) (shift q m) :=
  fun i hi => h (m + i) (by omega)

theorem Agree.be16 (h : Agree n p q) (ho : off + 2 ≤ n) : be16 p off = be16 q off := by
  simp only [ByteBuf.be16, h off (by omega), h (off + 1) (by omega)]

theorem be16_lt (b : Buf) (off : Nat) : be16 b off < 65536 := by
  have := (b off).toNat_lt
  have := (b (off + 1)).toNat_lt
  simp only [be16]
  omega

theorem le16_lt (b : Buf) (off : Nat) : le16 b off < 65536 := by
  have := (b off).toNat_lt
  have := (b (off + 1)).toNat_lt
  simp only [le16]
  omega

theorem be16_store_of_lt (h : i + 2 ≤ off) : be16 (store b off bs) i = be16 b i := by
  rw [be16, be16, store_of_lt (by omega), store_of_lt (by omega)]

theorem be16_putBe16_of_lt (h : i + 2 ≤ off) : be16 (putBe16 b off v) i = be16 b i :=
  be16_store_of_lt h

theorem be16_putLe16_of_lt (h : i + 2 ≤ off) : be16 (putLe16 b off v) i = be16 b i :=
  be16_store_of_lt h

theorem le16_store_of_ge (h : off + bs.length ≤ i) : le16 (store b off bs) i = le16 b i := by
  rw [le16, le16, store_of_ge h, store_of_ge (by omega)]

theorem be16_shift : be16 (shift b n) off = be16 b (n + off) := by
  simp [be16, Nat.add_assoc]

theorem le16_shift : le16 (shift b n) off = le16 b (n + off) := by
  simp [le16, Nat.add_assoc]

theorem be16_putBe16 (h : v < 65536) : be16 (putBe16 b off v) off = v := by
  have inside (k : Nat) (hk : k < 2) :=
    store_inside b off [UInt8.ofNat (v / 256), UInt8.ofNat v] (i := k) (by simpa using hk)
  have h0 := inside 0 (by omega)
  have h1 := inside 1 (by omega)
  simp only [Nat.add_zero] at h0
  simp only [be16, putBe16, h0, h1, List.getD_cons_zero, List.getD_cons_succ, UInt8.toNat_ofNat']
  omega

theorem le16_putLe16 (h : v < 65536) : le16 (putLe16 b off v) off = v := by
  have inside (k : Nat) (hk : k < 2) :=
    store_inside b off [UInt8.ofNat v, UInt8.ofNat (v / 256)] (i := k) (by simpa using hk)
  have h0 := inside 0 (by omega)
  have h1 := inside 1 (by omega)
  simp only [Nat.add_zero] at h0
  simp only [le16, putLe16, h0, h1, List.getD_cons_zero, List.getD_cons_succ, UInt8.toNat_ofNat']
  omega

theorem putBe16_be16 (b : Buf) (off : Nat) : putBe16 b off (be16 b off) = b := by
  have hlow := (b (off + 1)).toNat_lt
  have hhigh : UInt8.ofNat (be16 b off / 256) = b off := by
    rw [be16, Nat.mul_add_div (by decide), Nat.div_eq_of_lt hlow, Nat.add_zero]
    exact UInt8.ofNat_toNat
  have hrest : UInt8.ofNat (be16 b off) = b (off + 1) := by
    apply UInt8.toNat_inj.mp
    rw [UInt8.toNat_ofNat', be16]
    omega
  funext i
  rw [putBe16, hhigh, hrest]
  rcases Nat.lt_or_ge i off with hlt | hge
  · exact store_of_lt hlt
  · obtain ⟨k, rfl⟩ := Nat.exists_eq_add_of_le hge
    rcases Nat.lt_or_ge k 2 with hk | hk
    · rw [store_inside _ _ _ (by simpa using hk)]
      interval_cases k <;> rfl
    · exact store_of_ge (by simpa using hk)

theorem le32_putLe32 (h : v < 4294967296) : le32 (putLe32 b off v) off = v := by
  have inside (k : Nat) (hk : k < 4) :=
    store_inside b off [UInt8.ofNat v, UInt8.ofNat (v / 256), UInt8.ofNat (v / 65536),
      UInt8.ofNat (v / 16777216)] (i := k) (by simpa using hk)
  have h0 := inside 0 (by omega)
  have h1 := inside 1 (by omega)
  have h2 := inside 2 (by omega)
  have h3 := inside 3 (by omega)
  simp only [Nat.add_zero] at h0
  simp only [le32, le16, putLe32, Nat.add_assoc, h0, h1, h2, h3, List.getD_cons_zero,
    List.getD_cons_succ, UInt8.toNat_ofNat', Nat.reduceAdd]
  omega

end ByteBuf
