import NonOsLite.Net.Defrag

namespace NonOsLite
open ByteBuf LinkedTable

def descriptors (b : Buf) : Table := fun k =>
  ⟨le16 b (holeAddr k + lastByte), le16 b (holeAddr k + nextHole), le16 b (holeAddr k + prevHole)⟩

def InDesc (k a : Nat) : Prop := holeAddr k ≤ a ∧ a < holeAddr k + 8

def Inside (size k : Nat) : Prop := holeAddr k + 8 ≤ size

def Frame (S : Nat → Prop) (b b' : Buf) : Prop := ∀ a, (∀ j, S j → ¬InDesc j a) → b' a = b a

-- The hole (k, l) is made of the bytes from 8 * k to l.
structure Spaced (hs : Chain) : Prop where
  nonempty : ∀ h ∈ hs, 8 * h.1 < h.2
  ascending : hs.Pairwise fun a b => a.2 ≤ 8 * b.1

def InHoles (hs : Chain) (i : Nat) : Prop := ∃ h ∈ hs, 8 * h.1 ≤ i ∧ i < h.2

def carve (k l offset8 stop : Nat) : Chain :=
  (if k < offset8 then [(k, offset8 * 8)] else []) ++ (if stop < l then [(stop / 8, l)] else [])

variable {size k v j : Nat} {b b' b'' : Buf} {S : Nat → Prop} {hs pre post : Chain} {s : Defrag}

theorem Frame.refl (S : Nat → Prop) (b : Buf) : Frame S b b := fun _ _ => rfl

theorem Frame.trans (h : Frame S b b') (h' : Frame S b' b'') : Frame S b b'' :=
  fun a ha => (h' a ha).trans (h a ha)

theorem Frame.mono {S' : Nat → Prop} (h : Frame S b b') (hS : ∀ j, S j → S' j) : Frame S' b b' :=
  fun a ha => h a fun j hj => ha j (hS j hj)

theorem inDesc_ne {a : Nat} (hj : InDesc j a) (hne : j ≠ k) : ¬InDesc k a := by
  simp only [InDesc, holeAddr] at hj ⊢
  omega

theorem le16_congr {off : Nat} (h0 : b' off = b off) (h1 : b' (off + 1) = b (off + 1)) :
    le16 b' off = le16 b off := by
  rw [le16, le16, h0, h1]

theorem descriptors_congr (h : ∀ a, InDesc k a → b' a = b a) :
    descriptors b' k = descriptors b k := by
  have hfield (f : Nat) (hf : f + 2 ≤ 8) : le16 b' (holeAddr k + f) = le16 b (holeAddr k + f) :=
    le16_congr (h _ ⟨by omega, by omega⟩) (h _ ⟨by omega, by omega⟩)
  simp only [descriptors, hfield lastByte (by decide), hfield nextHole (by decide),
    hfield prevHole (by decide)]

theorem putLe16_other {off a : Nat} (h : a < off ∨ off + 2 ≤ a) : putLe16 b off v a = b a := by
  rcases h with h | h
  · exact store_of_lt h
  · exact store_of_ge h

theorem le16_putLe16_other {off off' : Nat} (h : off' + 2 ≤ off ∨ off + 2 ≤ off') :
    le16 (putLe16 b off v) off' = le16 b off' :=
  le16_congr (putLe16_other (by omega)) (putLe16_other (by omega))

theorem writeHole_frame (field : Nat) (hin : Inside size k) (hf : field + 2 ≤ 8) (hk : S k) :
    writeHole size k field v b = some (putLe16 b (holeAddr k + field) v) ∧
      Frame S b (putLe16 b (holeAddr k + field) v) := by
  rw [Inside] at hin
  refine ⟨if_pos (by omega), ?_⟩
  intro a ha
  have hout := ha k hk
  rw [InDesc] at hout
  exact putLe16_other (by omega)

theorem descriptors_putLe16_of_ne (field : Nat) (hf : field + 2 ≤ 8) (hj : j ≠ k) :
    descriptors (putLe16 b (holeAddr k + field) v) j = descriptors b j := by
  refine descriptors_congr fun a ha => putLe16_other ?_
  have hout := inDesc_ne ha hj
  rw [InDesc] at hout
  omega

theorem setNode_ext {t t' : Table} {nd : Node} (hk : t' k = nd) (hne : ∀ j, j ≠ k → t' j = t j) :
    t' = setNode t k nd := by
  funext j
  by_cases hj : j = k
  · subst hj
    rw [hk, setNode_self]
  · rw [hne j hj, setNode_of_ne hj]

theorem writeField {nd : Node} (field : Nat) (hin : Inside size k) (hf : field + 2 ≤ 8) (hk : S k)
    (hnd : descriptors (putLe16 b (holeAddr k + field) v) k = nd) :
    ∃ b', writeHole size k field v b = some b' ∧ descriptors b' = setNode (descriptors b) k nd ∧
      Frame S b b' := by
  obtain ⟨hwrite, hframe⟩ := writeHole_frame (b := b) (v := v) field hin hf hk
  exact ⟨_, hwrite, setNode_ext hnd fun j hj => descriptors_putLe16_of_ne field hf hj, hframe⟩

theorem writeLast (hin : Inside size k) (hv : v < 65536) (hk : S k) (b : Buf) :
    ∃ b', writeHole size k lastByte v b = some b' ∧
      descriptors b' = setVal (descriptors b) k v ∧ Frame S b b' := by
  refine writeField lastByte hin (by decide) hk ?_
  simp only [descriptors, le16_putLe16 hv, lastByte, nextHole, prevHole]
  rw [le16_putLe16_other (by omega), le16_putLe16_other (by omega)]

theorem writeNext (hin : Inside size k) (hv : v < 65536) (hk : S k) (b : Buf) :
    ∃ b', writeHole size k nextHole v b = some b' ∧
      descriptors b' = setNext (descriptors b) k v ∧ Frame S b b' := by
  refine writeField nextHole hin (by decide) hk ?_
  simp only [descriptors, le16_putLe16 hv, lastByte, nextHole, prevHole]
  rw [le16_putLe16_other (by omega), le16_putLe16_other (by omega)]

theorem writePrev (hin : Inside size k) (hv : v < 65536) (hk : S k) (b : Buf) :
    ∃ b', writeHole size k prevHole v b = some b' ∧
      descriptors b' = setPrev (descriptors b) k v ∧ Frame S b b' := by
  refine writeField prevHole hin (by decide) hk ?_
  simp only [descriptors, le16_putLe16 hv, lastByte, nextHole, prevHole]
  rw [le16_putLe16_other (by omega), le16_putLe16_other (by omega)]

theorem copy_descriptor_other {src : Buf} {a : Nat} (h : ¬InDesc k a) :
    copy b (holeAddr k) src 8 a = b a := by
  rw [InDesc] at h
  rcases Nat.lt_or_ge a (holeAddr k) with hlt | hge
  · exact copy_of_lt hlt
  · exact copy_of_ge (by omega)

theorem copyHole_spec {dst src : Nat} (hdst : Inside size dst) (hsrc : Inside size src)
    (hS : S dst) (b : Buf) :
    ∃ b', copyHole size dst src b = some b' ∧
      descriptors b' = setNode (descriptors b) dst (descriptors b src) ∧ Frame S b b' := by
  refine ⟨_, if_pos ⟨hdst, hsrc⟩, setNode_ext ?_ fun j hj => ?_, fun a ha => ?_⟩
  · have hcopied (f : Nat) (hf : f + 2 ≤ 8) :
        le16 (copy b (holeAddr dst) (shift b (holeAddr src)) 8) (holeAddr dst + f) =
          le16 b (holeAddr src + f) := by
      rw [le16, le16, copy_inside _ _ _ (by omega), Nat.add_assoc, copy_inside _ _ _ (by omega),
        shift_apply, shift_apply]
      rfl
    simp only [descriptors, hcopied lastByte (by decide), hcopied nextHole (by decide),
      hcopied prevHole (by decide)]
  · exact descriptors_congr fun a ha => copy_descriptor_other (inDesc_ne ha hj)
  · exact copy_descriptor_other (ha dst hS)

theorem readLast (hin : Inside size k) (b : Buf) :
    readHole size b k lastByte = some (descriptors b k).val :=
  if_pos (by rw [Inside] at hin; simp only [lastByte]; omega)

theorem readNext (hin : Inside size k) (b : Buf) :
    readHole size b k nextHole = some (descriptors b k).next :=
  if_pos (by rw [Inside] at hin; simp only [nextHole]; omega)

theorem readPrev (hin : Inside size k) (b : Buf) :
    readHole size b k prevHole = some (descriptors b k).prev :=
  if_pos (by rw [Inside] at hin; simp only [prevHole]; omega)

theorem Spaced.nodup (h : Spaced hs) : hs.indices.Nodup := by
  refine List.pairwise_map.mpr (h.ascending.imp_of_mem ?_)
  intro a c ha _ hac
  have hne := h.nonempty a ha
  omega

theorem spaced_append {xs ys : Chain} :
    Spaced (xs ++ ys) ↔ Spaced xs ∧ Spaced ys ∧ ∀ a ∈ xs, ∀ b ∈ ys, a.2 ≤ 8 * b.1 := by
  constructor
  · rintro ⟨hne, hasc⟩
    obtain ⟨hx, hy, hxy⟩ := List.pairwise_append.mp hasc
    exact ⟨⟨fun h hh => hne h (List.mem_append_left _ hh), hx⟩,
      ⟨fun h hh => hne h (List.mem_append_right _ hh), hy⟩, hxy⟩
  · rintro ⟨⟨hnex, hx⟩, ⟨hney, hy⟩, hxy⟩
    refine ⟨?_, List.pairwise_append.mpr ⟨hx, hy, hxy⟩⟩
    intro h hh
    rcases List.mem_append.mp hh with hh | hh
    · exact hnex h hh
    · exact hney h hh

theorem spaced_single {l : Nat} (h : 8 * k < l) : Spaced [(k, l)] := by
  refine ⟨?_, List.pairwise_singleton _ _⟩
  intro a ha
  rw [List.mem_singleton.mp ha]
  exact h

theorem spaced_nil : Spaced [] := ⟨fun _ hh => (List.not_mem_nil hh).elim, List.Pairwise.nil⟩

theorem Spaced.replace {l : Nat} {mid : Chain} (h : Spaced (pre ++ (k, l) :: post))
    (hmid : Spaced mid) (hin : ∀ m ∈ mid, k ≤ m.1 ∧ m.2 ≤ l) : Spaced ((pre ++ mid) ++ post) := by
  obtain ⟨hpre, hrest, hacross⟩ := spaced_append.mp h
  obtain ⟨-, hpost, hhole⟩ := spaced_append.mp (show Spaced ([(k, l)] ++ post) from hrest)
  refine spaced_append.mpr ⟨spaced_append.mpr ⟨hpre, hmid, ?_⟩, hpost, ?_⟩
  · intro a ha m hm
    have hak : a.2 ≤ 8 * k := hacross a ha (k, l) List.mem_cons_self
    have hkm := (hin m hm).1
    omega
  · intro a ha c hc
    rcases List.mem_append.mp ha with ha | ha
    · exact hacross a ha c (List.mem_cons_of_mem _ hc)
    · have hml := (hin a ha).2
      have hlc : l ≤ 8 * c.1 := hhole (k, l) List.mem_cons_self c hc
      omega

theorem Spaced.split {l m offset8 : Nat} (h : Spaced (pre ++ (k, l) :: post)) (hk : k < offset8)
    (hkm : offset8 ≤ m) (hml : 8 * m < l) :
    Spaced ((pre ++ [(k, offset8 * 8), (m, l)]) ++ post) := by
  refine h.replace ?_ ?_
  · refine spaced_append.mpr ⟨spaced_single (by omega), spaced_single hml, ?_⟩
    intro a ha c hc
    rw [List.mem_singleton.mp ha, List.mem_singleton.mp hc]
    dsimp only
    omega
  · intro a ha
    rcases List.mem_cons.mp ha with rfl | ha
    · exact ⟨le_rfl, by dsimp only; omega⟩
    · rw [List.mem_singleton.mp ha]
      exact ⟨by dsimp only; omega, le_rfl⟩

structure HoleList (size : Nat) (s : Defrag) (hs : Chain) : Prop where
  first : s.firstHole = headIdx 0 hs
  links : Seg (descriptors s.pktBuff) 0 hs 0
  spaced : Spaced hs
  inside : ∀ h ∈ hs, Inside size h.1

variable {l m offset8 start stop : Nat}

theorem HoleList.last_lt (h : HoleList size s hs) {a : Nat × Nat} (ha : a ∈ hs) : a.2 < 65536 := by
  rw [← h.links.mem ha]
  exact le16_lt _ _

theorem HoleList.index_lt (h : HoleList size s hs) (hj : j ∈ hs.indices) : j < 65536 := by
  obtain ⟨a, ha, rfl⟩ := List.mem_map.mp hj
  have hlast := h.last_lt ha
  have hne := h.spaced.nonempty a ha
  omega

theorem HoleList.inside_index (h : HoleList size s hs) (hj : j ∈ hs.indices) : Inside size j := by
  obtain ⟨a, ha, rfl⟩ := List.mem_map.mp hj
  exact h.inside a ha

theorem mem_hole : (k, l) ∈ pre ++ (k, l) :: post :=
  List.mem_append_right _ List.mem_cons_self

theorem hole_indices :
    Chain.indices (pre ++ (k, l) :: post) = pre.indices ++ k :: post.indices := by
  rw [indices_append]
  rfl

theorem mem_of_pre (hj : j ∈ pre.indices) : j ∈ Chain.indices (pre ++ (k, l) :: post) := by
  rw [hole_indices]
  exact List.mem_append_left _ hj

theorem mem_of_post (hj : j ∈ post.indices) : j ∈ Chain.indices (pre ++ (k, l) :: post) := by
  rw [hole_indices]
  exact List.mem_append_right _ (List.mem_cons_of_mem _ hj)

section Hole

variable (h : HoleList size s (pre ++ (k, l) :: post))
include h

theorem HoleList.node : descriptors s.pktBuff k = ⟨l, headIdx 0 post, lastIdx 0 pre⟩ :=
  (seg_append.mp h.links).2.1

theorem HoleList.segPre : Seg (descriptors s.pktBuff) 0 pre k := (seg_append.mp h.links).1

theorem HoleList.segPost : Seg (descriptors s.pktBuff) k post 0 := (seg_append.mp h.links).2.2

theorem HoleList.hole_inside : Inside size k := h.inside (k, l) mem_hole

theorem HoleList.pre_before (hj : j ∈ pre.indices) : j < k := by
  obtain ⟨a, ha, rfl⟩ := List.mem_map.mp hj
  have hne := h.spaced.nonempty a (List.mem_append_left _ ha)
  have hle : a.2 ≤ 8 * k :=
    (spaced_append.mp h.spaced).2.2 a ha (k, l) List.mem_cons_self
  omega

theorem HoleList.post_after (hj : j ∈ post.indices) : l ≤ 8 * j := by
  obtain ⟨a, ha, rfl⟩ := List.mem_map.mp hj
  have hrest : Spaced ([(k, l)] ++ post) := (spaced_append.mp h.spaced).2.1
  exact (spaced_append.mp hrest).2.2 (k, l) List.mem_cons_self a ha

theorem HoleList.hole_lt : 8 * k < l := h.spaced.nonempty (k, l) mem_hole

theorem HoleList.head_le (hj : j ∈ post.indices) : headIdx 0 post ≤ j := by
  obtain ⟨-, hrest, -⟩ := spaced_append.mp h.spaced
  cases post with
  | nil => exact (List.not_mem_nil hj).elim
  | cons a post =>
    rcases List.mem_cons.mp hj with rfl | hj
    · exact le_rfl
    · obtain ⟨c, hc, rfl⟩ := List.mem_map.mp hj
      have hbehind := (spaced_append.mp (show Spaced ([(k, l)] ++ a :: post) from hrest)).2.1
      have hne := hbehind.nonempty a List.mem_cons_self
      have hle := (List.pairwise_cons.mp hbehind.ascending).1 c hc
      rw [headIdx_cons]
      omega

theorem HoleList.next_zero : headIdx 0 post = 0 ↔ post = [] := by
  constructor
  · intro hzero
    by_contra hne
    have hafter := h.post_after (headIdx_mem (n := 0) hne)
    have hlt := h.hole_lt
    omega
  · rintro rfl
    rfl

end Hole

def Written (pre : Chain) (k m : Nat) (post : Chain) (j : Nat) : Prop :=
  j ∈ pre.indices ∨ j = k ∨ j = m ∨ j ∈ post.indices

theorem removeHole_last (h : HoleList size s [(k, l)]) : removeHole size k s = some (true, s) := by
  have hnode : descriptors s.pktBuff k = ⟨l, 0, 0⟩ :=
    HoleList.node (show HoleList size s ([] ++ (k, l) :: []) from h)
  have hin := h.inside (k, l) List.mem_cons_self
  simp [removeHole, readPrev hin, readNext hin, hnode]

theorem removeHole_spec (h : HoleList size s (pre ++ (k, l) :: post))
    (hlink : pre = [] ∨ lastIdx 0 pre ≠ 0) (hne : pre ++ post ≠ []) :
    ∃ s', removeHole size k s = some (false, s') ∧ s'.totalLen = s.totalLen ∧
      Frame (Written pre k m post) s.pktBuff s'.pktBuff ∧
      HoleList size s' ((pre ++ []) ++ post) := by
  have hin := h.hole_inside
  have hnode := h.node
  have hspaced : Spaced ((pre ++ []) ++ post) :=
    h.spaced.replace spaced_nil fun m hm => (List.not_mem_nil hm).elim
  have hseg := Seg.spliceBoth [] h.segPre trivial h.segPost hspaced.nodup
  have hinside : ∀ a ∈ (pre ++ []) ++ post, Inside size a.1 := by
    intro a ha
    rw [List.append_nil, List.mem_append] at ha
    rcases ha with ha | ha
    · exact h.inside a (List.mem_append_left _ ha)
    · exact h.inside a (List.mem_append_right _ (List.mem_cons_of_mem _ ha))
  rw [removeHole, readPrev hin, readNext hin, hnode]
  simp only [Option.bind_eq_bind, Option.bind_some]
  by_cases hpre : pre = []
  · -- The first hole: the next one becomes the first.
    subst hpre
    have hpost : post ≠ [] := hne
    have hnext : headIdx 0 post ≠ 0 := fun hzero => hpost (h.next_zero.mp hzero)
    have hhead := headIdx_mem (n := 0) hpost
    obtain ⟨b', hwrite, hdesc, hframe⟩ := writePrev (v := 0) (S := Written [] k m post)
      (h.inside_index (mem_of_post hhead)) (by decide) (.inr (.inr (.inr hhead))) s.pktBuff
    rw [linkPrev, if_neg hpost, linkNext, if_pos rfl] at hseg
    refine ⟨{ s with pktBuff := b', firstHole := headIdx 0 post }, ?_, rfl, hframe, rfl,
      hdesc ▸ hseg, hspaced, hinside⟩
    have hprev : lastIdx 0 ([] : Chain) = 0 := rfl
    rw [if_neg (fun hc => hnext hc.2), if_pos hprev, hwrite]
    rfl
  · have hprev := hlink.resolve_left hpre
    have hlast := lastIdx_mem_indices (p := 0) hpre
    have hfirst : s.firstHole = headIdx 0 ((pre ++ []) ++ post) := by
      rw [h.first, List.append_nil]
      exact headIdx_append_of_ne_nil hpre _ _
    rw [linkNext, if_neg hpre] at hseg
    by_cases hpost : post = []
    · subst hpost
      obtain ⟨b', hwrite, hdesc, hframe⟩ := writeNext (v := 0) (S := Written pre k m [])
        (h.inside_index (mem_of_pre hlast)) (by decide) (.inl hlast) s.pktBuff
      refine ⟨{ s with pktBuff := b' }, ?_, rfl, hframe, hfirst, hdesc ▸ hseg, hspaced, hinside⟩
      have hnext : headIdx 0 ([] : Chain) = 0 := rfl
      rw [if_neg (fun hc => hprev hc.1), if_neg hprev, if_pos hnext, hwrite]
      rfl
    · have hnext : headIdx 0 post ≠ 0 := fun hzero => hpost (h.next_zero.mp hzero)
      have hhead := headIdx_mem (n := 0) hpost
      obtain ⟨b', hwrite, hdesc, hframe⟩ := writePrev (v := lastIdx 0 pre)
        (S := Written pre k m post) (h.inside_index (mem_of_post hhead))
        (h.index_lt (mem_of_pre hlast)) (.inr (.inr (.inr hhead))) s.pktBuff
      obtain ⟨b'', hwrite', hdesc', hframe'⟩ := writeNext (v := headIdx 0 post)
        (S := Written pre k m post) (h.inside_index (mem_of_pre hlast))
        (h.index_lt (mem_of_post hhead)) (.inl hlast) b'
      rw [linkPrev, if_neg hpost] at hseg
      rw [hdesc] at hdesc'
      refine ⟨{ s with pktBuff := b'' }, ?_, rfl, hframe.trans hframe', hfirst, hdesc' ▸ hseg,
        hspaced, hinside⟩
      rw [if_neg (fun hc => hprev hc.1), if_neg hprev, if_neg hnext, hwrite, Option.bind_some,
        hwrite']
      rfl

theorem Spaced.setLast (h : Spaced (pre ++ (k, l) :: post)) (hv : 8 * k < v)
    (hpost : ∀ a ∈ post, v ≤ 8 * a.1) : Spaced (pre ++ (k, v) :: post) := by
  obtain ⟨hpre, hrest, hacross⟩ := spaced_append.mp h
  obtain ⟨-, hbehind, -⟩ := spaced_append.mp (show Spaced ([(k, l)] ++ post) from hrest)
  have hnew : Spaced ([(k, v)] ++ post) := by
    refine spaced_append.mpr ⟨spaced_single hv, hbehind, ?_⟩
    intro a ha c hc
    rw [List.mem_singleton.mp ha]
    exact hpost c hc
  refine spaced_append.mpr ⟨hpre, hnew, ?_⟩
  intro a ha c hc
  rcases List.mem_cons.mp hc with rfl | hc
  · exact hacross a ha (k, l) List.mem_cons_self
  · exact hacross a ha c (List.mem_cons_of_mem _ hc)

theorem HoleList.room_notMem_pre (h : HoleList size s (pre ++ (k, l) :: post)) (hkm : k ≤ m) :
    m ∉ pre.indices := by
  intro hmem
  have hbefore := h.pre_before hmem
  omega

theorem HoleList.room_notMem_post (h : HoleList size s (pre ++ (k, l) :: post)) (hml : 8 * m < l) :
    m ∉ post.indices := by
  intro hmem
  have hafter := h.post_after hmem
  omega

theorem endHole_spec (h : HoleList size s (pre ++ (k, l) :: post)) (hv : 8 * k < v)
    (hv16 : v < 65536) (hpost : ∀ a ∈ post, v ≤ 8 * a.1) (total : Nat) :
    ∃ b', writeHole size k lastByte v s.pktBuff = some b' ∧
      Frame (Written pre k m post) s.pktBuff b' ∧
      HoleList size ⟨b', s.firstHole, total⟩ (pre ++ (k, v) :: post) := by
  obtain ⟨b', hwrite, hdesc, hframe⟩ := writeLast (S := Written pre k m post) h.hole_inside hv16
    (.inr (.inl rfl)) s.pktBuff
  have hkpre : k ∉ pre.indices := fun hmem => (h.pre_before hmem).ne rfl
  have hkpost : k ∉ post.indices := h.room_notMem_post h.hole_lt
  refine ⟨b', hwrite, hframe, ?_, ?_, h.spaced.setLast hv hpost, ?_⟩
  · rw [headIdx_append_cons]
    exact h.first.trans (headIdx_append_cons _)
  · rw [hdesc, setVal, seg_append]
    refine ⟨h.segPre.setNode hkpre, ?_, h.segPost.setNode hkpost⟩
    rw [setNode_self, h.node]
  · intro a ha
    rcases List.mem_append.mp ha with ha | ha
    · exact h.inside a (List.mem_append_left _ ha)
    · rcases List.mem_cons.mp ha with rfl | ha
      · exact h.hole_inside
      · exact h.inside a (List.mem_append_right _ (List.mem_cons_of_mem _ ha))

theorem shortenHole_spec (h : HoleList size s (pre ++ (k, l) :: post)) (hk : k < offset8)
    (hle : offset8 * 8 ≤ l) :
    ∃ b', writeHole size k lastByte (offset8 * 8) s.pktBuff = some b' ∧
      Frame (Written pre k m post) s.pktBuff b' ∧
      HoleList size { s with pktBuff := b' } ((pre ++ [(k, offset8 * 8)]) ++ post) := by
  have hl := h.last_lt mem_hole
  dsimp only at hl
  rw [List.append_assoc]
  refine endHole_spec h (by omega) (by omega) ?_ s.totalLen
  intro a ha
  have hafter := h.post_after (List.mem_map_of_mem ha)
  omega

theorem linkBack_spec (h : HoleList size s (pre ++ (k, l) :: post)) (hm : m < 65536) (b : Buf) :
    ∃ b', linkBack size (headIdx 0 post) m b = some b' ∧
      descriptors b' = linkPrev (descriptors b) post m ∧
      Frame (Written pre k m post) b b' := by
  rw [linkBack]
  by_cases hpost : post = []
  · rw [if_neg (not_not.mpr (h.next_zero.mpr hpost)), linkPrev, if_pos hpost]
    exact ⟨b, rfl, rfl, Frame.refl _ b⟩
  · have hhead := headIdx_mem (n := 0) hpost
    rw [if_pos fun hzero => hpost (h.next_zero.mp hzero), linkPrev, if_neg hpost]
    exact writePrev (h.inside_index (mem_of_post hhead)) hm (.inr (.inr (.inr hhead))) b

theorem inside_replace (mid : Chain) (h : HoleList size s (pre ++ (k, l) :: post))
    (hmid : ∀ a ∈ mid, Inside size a.1) : ∀ a ∈ (pre ++ mid) ++ post, Inside size a.1 := by
  intro a ha
  rcases List.mem_append.mp ha with ha | ha
  · rcases List.mem_append.mp ha with ha | ha
    · exact h.inside a (List.mem_append_left _ ha)
    · exact hmid a ha
  · exact h.inside a (List.mem_append_right _ (List.mem_cons_of_mem _ ha))

theorem moveHole_spec (h : HoleList size s (pre ++ (k, l) :: post)) (hkm : k ≤ m)
    (hml : 8 * m < l) (hroom : Inside size m) (hlink : pre = [] ∨ lastIdx 0 pre ≠ 0) :
    ∃ s', moveHole size k m s = some s' ∧ s'.totalLen = s.totalLen ∧
      Frame (Written pre k m post) s.pktBuff s'.pktBuff ∧
      HoleList size s' ((pre ++ [(m, l)]) ++ post) := by
  have hl := h.last_lt mem_hole
  dsimp only at hl
  have hmpre := h.room_notMem_pre hkm
  have hmpost := h.room_notMem_post hml
  obtain ⟨b₁, hcopy, hdesc₁, hframe₁⟩ := copyHole_spec (S := Written pre k m post) hroom
    h.hole_inside (.inr (.inr (.inl rfl))) s.pktBuff
  obtain ⟨b₂, hback, hdesc₂, hframe₂⟩ := linkBack_spec h (by omega : m < 65536) b₁
  have hnode₁ : descriptors b₁ m = ⟨l, headIdx 0 post, lastIdx 0 pre⟩ := by
    rw [hdesc₁, setNode_self, h.node]
  have hnode₂ : descriptors b₂ m = ⟨l, headIdx 0 post, lastIdx 0 pre⟩ := by
    rw [hdesc₂, linkPrev_apply hmpost, hnode₁]
  have hspaced : Spaced ((pre ++ [(m, l)]) ++ post) := by
    refine h.spaced.replace (spaced_single hml) fun a ha => ?_
    rw [List.mem_singleton.mp ha]
    exact ⟨hkm, le_rfl⟩
  have hinside := inside_replace [(m, l)] h fun a ha => by
    rw [List.mem_singleton.mp ha]
    exact hroom
  have hpre₁ : Seg (descriptors b₁) 0 pre k := by
    rw [hdesc₁]
    exact h.segPre.setNode hmpre
  have hpost₁ : Seg (descriptors b₁) k post 0 := by
    rw [hdesc₁]
    exact h.segPost.setNode hmpost
  have hseg := Seg.spliceBoth [(m, l)] hpre₁ ⟨hnode₁, trivial⟩ hpost₁ hspaced.nodup
  rw [moveHole, hcopy]
  simp only [Option.bind_eq_bind, Option.bind_some]
  rw [readNext hroom, hnode₁, Option.bind_some, hback, Option.bind_some, readPrev hroom, hnode₂,
    Option.bind_some]
  by_cases hpre : pre = []
  · subst hpre
    have hprev : ¬lastIdx 0 ([] : Chain) ≠ 0 := not_not.mpr rfl
    rw [if_neg hprev]
    rw [linkNext, if_pos rfl] at hseg
    exact ⟨_, rfl, rfl, hframe₁.trans hframe₂, rfl, hdesc₂ ▸ hseg, hspaced, hinside⟩
  · have hlast := lastIdx_mem_indices (p := 0) hpre
    obtain ⟨b₃, hwrite, hdesc₃, hframe₃⟩ := writeNext (v := m) (S := Written pre k m post)
      (h.inside_index (mem_of_pre hlast)) (by omega) (.inl hlast) b₂
    rw [if_pos (hlink.resolve_left hpre), hwrite, Option.bind_some]
    rw [linkNext, if_neg hpre] at hseg
    rw [hdesc₂] at hdesc₃
    refine ⟨_, rfl, rfl, (hframe₁.trans hframe₂).trans hframe₃, ?_, hdesc₃ ▸ hseg, hspaced, hinside⟩
    rw [List.append_assoc]
    exact h.first.trans (headIdx_append_of_ne_nil hpre _ _)

theorem splitHole_spec (h : HoleList size s (pre ++ (k, l) :: post)) (hk : k < offset8)
    (hkm : offset8 ≤ m) (hml : 8 * m < l) (hroom : Inside size m) :
    ∃ s', splitHole size k m (offset8 * 8) s = some s' ∧ s'.totalLen = s.totalLen ∧
      Frame (Written pre k m post) s.pktBuff s'.pktBuff ∧
      HoleList size s' ((pre ++ [(k, offset8 * 8), (m, l)]) ++ post) := by
  have hl := h.last_lt mem_hole
  dsimp only at hl
  have hmk : m ≠ k := by omega
  have hmpre := h.room_notMem_pre (by omega : k ≤ m)
  have hmpost := h.room_notMem_post hml
  have hkpre : k ∉ pre.indices := fun hmem => (h.pre_before hmem).ne rfl
  have hkpost : k ∉ post.indices := h.room_notMem_post h.hole_lt
  have hkin := h.hole_inside
  have hkS : Written pre k m post k := .inr (.inl rfl)
  have hmS : Written pre k m post m := .inr (.inr (.inl rfl))
  obtain ⟨b₁, hcopy, hdesc₁, hframe₁⟩ := copyHole_spec hroom hkin hmS s.pktBuff
  obtain ⟨b₂, hwrite₂, hdesc₂, hframe₂⟩ := writeLast hkin (by omega : offset8 * 8 < 65536) hkS b₁
  obtain ⟨b₃, hwrite₃, hdesc₃, hframe₃⟩ := writeNext hkin (by omega : m < 65536) hkS b₂
  obtain ⟨b₄, hwrite₄, hdesc₄, hframe₄⟩ := writePrev hroom (by omega : k < 65536) hmS b₃
  obtain ⟨b₅, hback, hdesc₅, hframe₅⟩ := linkBack_spec h (by omega : m < 65536) b₄
  have hnode := h.node
  have hother (j : Nat) (hjk : j ≠ k) (hjm : j ≠ m) :
      descriptors b₄ j = descriptors s.pktBuff j := by
    rw [hdesc₄, setPrev, setNode_of_ne hjm, hdesc₃, setNext, setNode_of_ne hjk, hdesc₂, setVal,
      setNode_of_ne hjk, hdesc₁, setNode_of_ne hjm]
  have hnodek : descriptors b₄ k = ⟨offset8 * 8, m, lastIdx 0 pre⟩ := by
    rw [hdesc₄, setPrev, setNode_of_ne hmk.symm, hdesc₃, setNext, setNode_self, hdesc₂, setVal,
      setNode_self, hdesc₁, setNode_of_ne hmk.symm, hnode]
  have hnodem : descriptors b₄ m = ⟨l, headIdx 0 post, k⟩ := by
    rw [hdesc₄, setPrev, setNode_self, hdesc₃, setNext, setNode_of_ne hmk, hdesc₂, setVal,
      setNode_of_ne hmk, hdesc₁, setNode_self, hnode]
  have hspaced := h.spaced.split hk hkm hml
  have hinside := inside_replace [(k, offset8 * 8), (m, l)] h fun a ha => by
    rcases List.mem_cons.mp ha with rfl | ha
    · exact hkin
    · rw [List.mem_singleton.mp ha]
      exact hroom
  have hpre₄ : Seg (descriptors b₄) 0 pre k := h.segPre.congr fun j hj =>
    hother j (ne_of_mem_of_not_mem hj hkpre) (ne_of_mem_of_not_mem hj hmpre)
  have hpost₄ : Seg (descriptors b₄) k post 0 := h.segPost.congr fun j hj =>
    hother j (ne_of_mem_of_not_mem hj hkpost) (ne_of_mem_of_not_mem hj hmpost)
  have hseg := Seg.splice [(k, offset8 * 8), (m, l)] hpre₄
    ⟨hnodek, hnodem, trivial⟩ hpost₄ hspaced.nodup
  have hsame : headIdx 0 ((pre ++ [(k, offset8 * 8), (m, l)]) ++ post) =
      headIdx 0 (pre ++ (k, l) :: post) := by
    rw [List.append_assoc, List.cons_append, headIdx_append_cons, headIdx_append_cons]
  refine ⟨{ s with pktBuff := b₅ }, ?_, rfl,
    (((hframe₁.trans hframe₂).trans hframe₃).trans hframe₄).trans hframe₅,
    h.first.trans hsame.symm, hdesc₅ ▸ hseg, hspaced, hinside⟩
  rw [splitHole, hcopy]
  simp only [Option.bind_eq_bind, Option.bind_some, hwrite₂, hwrite₃, hwrite₄]
  rw [readNext hroom, hnodem, Option.bind_some, hback]
  rfl

structure Fixed (size : Nat) (S : Nat → Prop) (s : Defrag) (hs : Chain) (done : Bool)
    (s' : Defrag) : Prop where
  total : s'.totalLen = s.totalLen
  frame : Frame S s.pktBuff s'.pktBuff
  finished : done = true → hs = []
  left : done = false → hs ≠ [] ∧ HoleList size s' hs

theorem Fixed.of_list {s' : Defrag} (htotal : s'.totalLen = s.totalLen)
    (hframe : Frame S s.pktBuff s'.pktBuff) (hne : hs ≠ []) (hlist : HoleList size s' hs) :
    Fixed size S s hs false s' :=
  ⟨htotal, hframe, fun hdone => absurd hdone Bool.false_ne_true, fun _ => ⟨hne, hlist⟩⟩

theorem Fixed.of_nil (size : Nat) (S : Nat → Prop) (s : Defrag) : Fixed size S s [] true s :=
  ⟨rfl, Frame.refl S _, fun _ => rfl, fun hdone => absurd hdone.symm Bool.false_ne_true⟩

def newHole (k l stop : Nat) : Nat := if stop < l then stop / 8 else k

theorem fixHoles_spec {len : Nat} (h : HoleList size s (pre ++ (k, l) :: post))
    (hle : offset8 * 8 ≤ l) (hstop : 8 * k < offset8 * 8 + len)
    (hlink : offset8 ≤ k → pre = [] ∨ lastIdx 0 pre ≠ 0)
    (hroom : offset8 * 8 + len < l → Inside size ((offset8 * 8 + len) / 8)) :
    ∃ done s', fixHoles size k offset8 len s = some (done, s') ∧
      Fixed size (Written pre k (newHole k l (offset8 * 8 + len)) post) s
        ((pre ++ carve k l offset8 (offset8 * 8 + len)) ++ post) done s' := by
  have hin := h.hole_inside
  have hnode := h.node
  have hnewh : ((offset8 : Int) + (len : Int).tdiv 8).toNat = (offset8 * 8 + len) / 8 := by
    have hdiv : (len : Int).tdiv 8 = ((len / 8 : Nat) : Int) := (Int.ofNat_tdiv len 8).symm
    rw [hdiv]
    omega
  rw [fixHoles]
  simp only [Option.bind_eq_bind]
  rw [readLast hin, hnode, Option.bind_some, hnewh]
  dsimp only
  generalize hstopEq : offset8 * 8 + len = stop at hstop hroom ⊢
  have hcmp : (l : Int) ≤ ((offset8 * 8 : Nat) : Int) + (len : Int) ↔ l ≤ stop := by omega
  simp only [hcmp]
  by_cases hfit : l ≤ stop
  · have hright : ¬stop < l := Nat.not_lt.mpr hfit
    by_cases hk : offset8 ≤ k
    · have hcarve : carve k l offset8 stop = [] := by
        rw [carve, if_neg (Nat.not_lt.mpr hk), if_neg hright]
        rfl
      rw [if_pos ⟨hk, hfit⟩, hcarve, List.append_nil]
      by_cases hlast : pre ++ post = []
      · obtain ⟨rfl, rfl⟩ := List.append_eq_nil_iff.mp hlast
        exact ⟨true, s, removeHole_last h, Fixed.of_nil _ _ s⟩
      · obtain ⟨s', hremove, htotal, hframe, hlist⟩ := removeHole_spec h (hlink hk) hlast
        rw [List.append_nil] at hlist
        exact ⟨false, s', hremove, Fixed.of_list htotal hframe hlast hlist⟩
    · have hcarve : carve k l offset8 stop = [(k, offset8 * 8)] := by
        rw [carve, if_pos (Nat.lt_of_not_le hk), if_neg hright]
        rfl
      obtain ⟨b', hwrite, hframe, hlist⟩ := shortenHole_spec h (Nat.lt_of_not_le hk) hle
      rw [if_neg (fun hc => hk hc.1), if_pos hfit, hwrite, hcarve]
      exact ⟨false, { s with pktBuff := b' }, rfl, Fixed.of_list rfl hframe (by simp) hlist⟩
  · have hright : stop < l := Nat.lt_of_not_le hfit
    have hml : 8 * (stop / 8) < l := by omega
    rw [newHole, if_pos hright]
    by_cases hk : offset8 ≤ k
    · have hcarve : carve k l offset8 stop = [(stop / 8, l)] := by
        rw [carve, if_neg (Nat.not_lt.mpr hk), if_pos hright]
        rfl
      obtain ⟨s', hmove, htotal, hframe, hlist⟩ :=
        moveHole_spec h (by omega : k ≤ stop / 8) hml (hroom hright) (hlink hk)
      rw [if_neg (fun hc => hfit hc.2), if_neg hfit, if_pos hk, hmove, hcarve]
      exact ⟨false, s', rfl, Fixed.of_list htotal hframe (by simp) hlist⟩
    · have hcarve : carve k l offset8 stop = [(k, offset8 * 8), (stop / 8, l)] := by
        rw [carve, if_pos (Nat.lt_of_not_le hk), if_pos hright]
        rfl
      obtain ⟨s', hsplit, htotal, hframe, hlist⟩ :=
        splitHole_spec h (Nat.lt_of_not_le hk) (by omega : offset8 ≤ stop / 8) hml (hroom hright)
      rw [if_neg (fun hc => hk hc.1), if_neg hfit, if_neg hk, hsplit, hcarve]
      exact ⟨false, s', rfl, Fixed.of_list htotal hframe (by simp) hlist⟩

theorem HoleList.length_le (h : HoleList size s hs) : hs.length ≤ 8192 := by
  have hsub : hs.indices ⊆ List.range 8192 := by
    intro j hj
    obtain ⟨a, ha, rfl⟩ := List.mem_map.mp hj
    have hlast := h.last_lt ha
    have hne := h.spaced.nonempty a ha
    exact List.mem_range.mpr (by omega)
  have hle := (h.spaced.nodup.subperm hsub).length_le
  rwa [Chain.indices, List.length_map, List.length_range] at hle

theorem findHole_spec (b : Buf) (start : Nat) (hs : Chain) :
    ∀ p fuel, Seg (descriptors b) p hs 0 → Spaced hs → (∀ h ∈ hs, Inside size h.1) → hs ≠ [] →
      hs.length ≤ fuel →
      findHole size b start fuel (headIdx 0 hs) = some none ∨
        ∃ pre k l post, hs = pre ++ (k, l) :: post ∧ (∀ a ∈ pre, a.2 < start) ∧ start ≤ l ∧
          findHole size b start fuel (headIdx 0 hs) = some (some k) := by
  induction hs with
  | nil => exact fun _ _ _ _ _ hne => absurd rfl hne
  | cons a hs ih =>
    obtain ⟨k, l⟩ := a
    intro p fuel hseg hspaced hinside _ hfuel
    obtain ⟨fuel, rfl⟩ := Nat.exists_eq_succ_of_ne_zero (Nat.ne_zero_of_lt hfuel)
    obtain ⟨hnode, htail⟩ := hseg
    have hin := hinside (k, l) List.mem_cons_self
    obtain ⟨-, hrest, hacross⟩ := spaced_append.mp (show Spaced ([(k, l)] ++ hs) from hspaced)
    have hlt := hspaced.nonempty (k, l) List.mem_cons_self
    rw [headIdx_cons, findHole]
    simp only [Option.bind_eq_bind]
    rw [readLast hin, hnode, Option.bind_some]
    dsimp only
    by_cases hreach : l < start
    · rw [if_pos hreach, readNext hin, hnode, Option.bind_some]
      dsimp only
      by_cases hnil : hs = []
      · subst hnil
        exact .inl rfl
      · have hnext : headIdx 0 hs ≠ 0 := by
          obtain ⟨c, hs, rfl⟩ := List.exists_cons_of_ne_nil hnil
          have hafter : l ≤ 8 * c.1 :=
            hacross (k, l) (List.mem_singleton_self _) c List.mem_cons_self
          rw [headIdx_cons]
          dsimp only at hlt
          omega
        rw [if_neg hnext]
        rcases ih k fuel htail hrest (fun c hc => hinside c (List.mem_cons_of_mem _ hc)) hnil
          (Nat.le_of_succ_le_succ hfuel) with hnone | ⟨pre, k', l', post, rfl, hpre, hle, hfound⟩
        · exact .inl hnone
        · refine .inr ⟨(k, l) :: pre, k', l', post, rfl, ?_, hle, hfound⟩
          intro c hc
          rcases List.mem_cons.mp hc with rfl | hc
          · exact hreach
          · exact hpre c hc
    · rw [if_neg hreach]
      exact .inr ⟨[], k, l, hs, rfl, fun c hc => (List.not_mem_nil hc).elim,
        Nat.le_of_not_lt hreach, rfl⟩

end NonOsLite
