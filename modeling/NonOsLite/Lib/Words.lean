import NonOsLite.Lib.ByteBuf

-- Memory in aligned words of four bytes: which words a piece of code writes.
namespace ByteBuf

def Changes (W : Set Nat) (mem mem' : Buf) : Prop := ∀ x, x / 4 * 4 ∉ W → mem' x = mem x

variable {mem mem' mem'' : Buf} {V W : Set Nat} {a b v : Nat}

theorem Changes.refl (W : Set Nat) (mem : Buf) : Changes W mem mem := fun _ _ => rfl

theorem Changes.mono (h : Changes V mem mem') (hsub : V ⊆ W) : Changes W mem mem' :=
  fun x hx => h x fun hV => hx (hsub hV)

theorem Changes.trans (h : Changes W mem mem') (h' : Changes W mem' mem'') :
    Changes W mem mem'' :=
  fun x hx => (h' x hx).trans (h x hx)

theorem le32_congr (h : ∀ i < 4, mem' (a + i) = mem (a + i)) : le32 mem' a = le32 mem a := by
  have h0 := h 0 (by omega)
  rw [Nat.add_zero] at h0
  simp only [le32, le16, Nat.add_assoc, h0, h 1 (by omega), h 2 (by omega), h 3 (by omega),
    Nat.reduceAdd]

theorem le32_store_apart {bs : List UInt8} (h : b + bs.length ≤ a ∨ a + 4 ≤ b) :
    le32 (store mem b bs) a = le32 mem a := by
  refine le32_congr fun i hi => ?_
  rcases h with hbefore | hbehind
  · exact store_of_ge (by omega)
  · exact store_of_lt (by omega)

theorem le32_putLe32_apart (h : b + 4 ≤ a ∨ a + 4 ≤ b) : le32 (putLe32 mem b v) a = le32 mem a :=
  le32_store_apart h

theorem Changes.le32 (h : Changes W mem mem') (ha : 4 ∣ a) (hW : a ∉ W) :
    le32 mem' a = le32 mem a := by
  refine le32_congr fun k hk => h _ ?_
  rwa [show (a + k) / 4 * 4 = a by omega]

theorem putLe32_of_lt {x : Nat} (h : x < a) : putLe32 mem a v x = mem x := store_of_lt h

theorem putLe32_of_ge {x : Nat} (h : a + 4 ≤ x) : putLe32 mem a v x = mem x := store_of_ge h

theorem putLe32_of_apart {x : Nat} (h : x < a ∨ a + 4 ≤ x) : putLe32 mem a v x = mem x :=
  h.elim putLe32_of_lt putLe32_of_ge

theorem changes_putLe32 (ha : 4 ∣ a) : Changes {a} mem (putLe32 mem a v) := by
  intro x hx
  rw [Set.mem_singleton_iff] at hx
  rcases Nat.lt_or_ge x a with hlt | hge
  · exact putLe32_of_lt hlt
  · exact putLe32_of_ge (by omega)

theorem Changes.put (h : Changes W mem mem') (ha : 4 ∣ a) (hW : a ∈ W) :
    Changes W mem (putLe32 mem' a v) :=
  h.trans ((changes_putLe32 ha).mono (Set.singleton_subset_iff.mpr hW))

theorem le32_putLe32_ne (ha : 4 ∣ a) (hb : 4 ∣ b) (hne : b ≠ a) :
    le32 (putLe32 mem a v) b = le32 mem b :=
  (changes_putLe32 ha).le32 hb hne

theorem le32_lt (mem : Buf) (a : Nat) : le32 mem a < 4294967296 := by
  have := le16_lt mem a
  have := le16_lt mem (a + 2)
  rw [ByteBuf.le32]
  omega

end ByteBuf
