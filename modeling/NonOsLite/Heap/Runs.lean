import NonOsLite.Heap.Calloc

namespace NonOsLite
open ByteBuf Ring BoundaryTags

-- What a program asks of the allocator, and what it writes between the calls. It frees the block
-- of a number, or NULL when there is none.
inductive HeapCall where
  | malloc (bytes : Nat)
  | calloc (n elemSize : Nat)
  | free (k : Nat)
  | mallocTrim (pad : Nat)
  | write (a : Nat) (c : UInt8)

structure Client where
  blocks : List (Nat × Nat)
  view : Buf

def InBlock (b : Nat × Nat) (a : Nat) : Prop := b.1 ≤ a ∧ a < b.1 + b.2

instance (b : Nat × Nat) (a : Nat) : Decidable (InBlock b a) := inferInstanceAs (Decidable (_ ∧ _))

def Client.receive (c : Client) (m bytes : Nat) (mem : Buf) : Client :=
  if m = 0 then c
  else ⟨(m, bytes) :: c.blocks, fun a => if InBlock (m, bytes) a then mem a else c.view a⟩

def Client.block (c : Client) (k : Nat) : Nat := (c.blocks.getD k (0, 0)).1

structure Process where
  arena : Arena
  client : Client

def heapCall (av fuel : Nat) (s : Process) : HeapCall → Option Process
  | .malloc bytes => do
    let r ← malloc av fuel s.arena bytes
    some ⟨r.2, s.client.receive r.1 bytes r.2.mem⟩
  | .calloc n elemSize => do
    let r ← calloc av fuel s.arena n elemSize
    some ⟨r.2, s.client.receive r.1 (n * elemSize) fun _ => 0⟩
  | .free k => do
    let m := s.client.block k
    let arena ← free av fuel s.arena m
    some ⟨arena, { s.client with blocks := s.client.blocks.filter (·.1 ≠ m) }⟩
  | .mallocTrim pad => some ⟨(mallocTrim av s.arena pad).2, s.client⟩
  | .write a c => some ⟨s.arena.withMem (Function.update s.arena.mem a c),
      { s.client with view := Function.update s.client.view a c }⟩

def heapRun (av fuel : Nat) (s : Process) : List HeapCall → Option Process
  | [] => some s
  | call :: calls => do
    let s ← heapCall av fuel s call
    heapRun av fuel s calls

-- A program writes what it holds, and calls calloc where memory is clear. A size is not so near to
-- 2147483648 that padding or rounding carries it over.
def Client.May (clear : Prop) (c : Client) : HeapCall → Prop
  | .malloc bytes => bytes < 2147479525 ∨ 2147483648 ≤ bytes ∧ bytes < 4294967296
  | .calloc n elemSize => clear ∧ n * elemSize < 2147479525
  | .free _ => True
  | .mallocTrim pad => pad < 2147479552
  | .write a _ => ∃ b ∈ c.blocks, InBlock b a

def MayRun (clear : Prop) (av fuel : Nat) (s : Process) : List HeapCall → Prop
  | [] => True
  | call :: calls => s.client.May clear call ∧
      ∀ s', heapCall av fuel s call = some s' → MayRun clear av fuel s' calls

instance (c : Client) : (call : HeapCall) → Decidable (c.May True call)
  | .malloc bytes => inferInstanceAs (Decidable
      (bytes < 2147479525 ∨ 2147483648 ≤ bytes ∧ bytes < 4294967296))
  | .calloc n elemSize => inferInstanceAs (Decidable (True ∧ n * elemSize < 2147479525))
  | .free _ => inferInstanceAs (Decidable True)
  | .mallocTrim pad => inferInstanceAs (Decidable (pad < 2147479552))
  | .write a _ => inferInstanceAs (Decidable (∃ b ∈ c.blocks, InBlock b a))

instance decidableMayRun (av fuel : Nat) :
    (s : Process) → (calls : List HeapCall) → Decidable (MayRun True av fuel s calls)
  | _, [] => inferInstanceAs (Decidable True)
  | s, call :: calls =>
    match h : heapCall av fuel s call with
    | none => decidable_of_iff (s.client.May True call) (by simp [MayRun, h])
    | some s' =>
      have := decidableMayRun av fuel s' calls
      decidable_of_iff (s.client.May True call ∧ MayRun True av fuel s' calls) (by simp [MayRun, h])

-- The array av_ as the loader leaves it: two words of 0, and two links in every bin to itself.
def avWord (av i : Nat) : Nat := if i < 2 then 0 else binAt av ((i - 2) / 2)

def loadAv (av : Nat) (mem : Buf) : Buf := fun a =>
  if av ≤ a ∧ a < av + 1032 then UInt8.ofNat (avWord av ((a - av) / 4) / 256 ^ ((a - av) % 4))
  else mem a

def bootProcess (av heap stackEnd : Nat) (mem : Buf) : Process :=
  ⟨⟨Heap.init heap stackEnd (loadAv av mem), noSbrkBase⟩, ⟨[], mem⟩⟩

structure BlocksRight (s : Process) : Prop where
  aligned : ∀ b ∈ s.client.blocks, 8 ∣ b.1
  inside : ∀ b ∈ s.client.blocks, s.arena.heap.memMallocStart ≤ b.1 ∧
    b.1 + b.2 ≤ s.arena.heap.memMallocBrk
  apart : s.client.blocks.Pairwise fun b b' => b.1 + b.2 ≤ b'.1 ∨ b'.1 + b'.2 ≤ b.1
  seen : ∀ b ∈ s.client.blocks, ∀ a, InBlock b a → s.arena.mem a = s.client.view a

def Houses (U : Set (Nat × Nat)) (b : Nat × Nat) : Prop :=
  ∃ v z, b.1 = v + 8 ∧ b.2 + 4 ≤ z ∧ (v, z) ∈ U

structure Sound (clear : Prop) (av : Nat) (U : Set (Nat × Nat)) (s : Process) : Prop where
  owns : Owns av s.arena U
  housed : ∀ b ∈ s.client.blocks, Houses U b
  nodup : (s.client.blocks.map Prod.fst).Nodup
  seen : ∀ b ∈ s.client.blocks, ∀ a, InBlock b a → s.arena.mem a = s.client.view a
  behind : clear → ∀ a, s.arena.heap.memMallocBrk ≤ a → s.arena.mem a = 0

variable {av P n e fuel heap stackEnd bytes m pad a v w z i y : Nat} {s s' : Process}
  {U V : Set (Nat × Nat)} {b b' : Nat × Nat} {c : UInt8} {mem mem' : Buf} {call : HeapCall}
  {calls : List HeapCall} {arena arena' : Arena} {ts : List Tile} {bins : Bins} {clear : Prop}

theorem Houses.mono (h : Houses U b) (hsub : ∀ v z, b.1 = v + 8 → (v, z) ∈ U → (v, z) ∈ V) :
    Houses V b := by
  obtain ⟨v, z, hb, hroom, hin⟩ := h
  exact ⟨v, z, hb, hroom, hsub v z hb hin⟩

theorem Client.block_cases (c : Client) (k : Nat) :
    c.block k = 0 ∨ ∃ b ∈ c.blocks, b.1 = c.block k := by
  rw [Client.block, List.getD_eq_getElem?_getD]
  rcases Nat.lt_or_ge k c.blocks.length with hk | hk
  · rw [List.getElem?_eq_getElem hk]
    exact .inr ⟨_, List.getElem_mem hk, rfl⟩
  · rw [List.getElem?_eq_none hk]
    exact .inl rfl

theorem AtRest.malloc_negative (h : AtRest av arena P ts bins) (hsign : 2147483648 ≤ bytes)
    (hbytes : bytes < 4294967296) (fuel : Nat) :
    NonOsLite.malloc av fuel arena bytes = some (0, arena) := by
  have hbehind := h.layout.region.behind
  have hstarted : ¬(arena.heap.memMallocStart = 0 ∧ arena.heap.memMallocEnd = 0) := by omega
  have hneg : toInt32 bytes < 0 := by
    rw [toInt32, u32]
    split_ifs <;> omega
  unfold NonOsLite.malloc
  rw [if_neg hstarted, if_pos hneg]

theorem malloc_padded_over (hlo : 2147483637 ≤ bytes) (hhi : bytes < 2147483648) :
    malloc av fuel arena bytes = malloc av fuel arena 0 := by
  have hpos : ¬toInt32 bytes < 0 := by
    rw [toInt32, u32]
    split_ifs <;> omega
  have hzero : ¬toInt32 0 < 0 := by decide
  have hsize : request2size bytes = request2size 0 := by
    have hover : toInt32 (u32 (bytes + 11)) < 23 := by
      rw [toInt32, u32, u32]
      split_ifs <;> omega
    rw [request2size, if_pos hover]
    rfl
  unfold malloc
  rw [if_neg hpos, if_neg hzero, hsize]

theorem Kept.block (h : Kept av U arena arena') (hb : Houses U b) (ha : InBlock b a) :
    arena'.mem a = arena.mem a := by
  obtain ⟨v, z, hb, hroom, hin⟩ := hb
  obtain ⟨hlo, hhi⟩ := ha
  exact h.used _ hin a (by dsimp only; omega) (by dsimp only; omega)

theorem Sound.blocksRight (h : Sound clear av U s) : BlocksRight s := by
  refine ⟨?_, ?_, ?_, h.seen⟩
  · intro b hb
    obtain ⟨v, z, hplace, -, hin⟩ := h.housed b hb
    have hv := (h.owns.inside hin).1
    omega
  · intro b hb
    obtain ⟨v, z, hplace, hroom, hin⟩ := h.housed b hb
    have hv := h.owns.inside hin
    omega
  · refine (List.pairwise_map.mp h.nodup).imp_of_mem ?_
    intro b b' hb hb' hne
    obtain ⟨v, z, hplace, hroom, hin⟩ := h.housed b hb
    obtain ⟨w, y, hplace', hroom', hin'⟩ := h.housed b' hb'
    have hapart := h.owns.apart hin hin'
    omega

theorem AtRest.trimFresh (h : AtRest av arena P [] bins) (hpad : pad < 2147479552) :
    NonOsLite.mallocTrim av arena pad = (0, arena) := by
  obtain ⟨htop, hsize, -, -⟩ := h.fresh rfl
  unfold NonOsLite.mallocTrim
  dsimp only
  rw [htop, hsize, toInt32_trimExtra (by decide) hpad, pagesize]
  exact if_pos (by omega)

theorem Kept.clearBehind (h : Kept av U arena arena')
    (hclear : ∀ a, arena.heap.memMallocBrk ≤ a → arena.mem a = 0) (a : Nat)
    (ha : arena'.heap.memMallocBrk ≤ a) : arena'.mem a = 0 := by
  rcases h.behind a ha with ⟨hbrk, hsame⟩ | hzero
  · rw [hsame, hclear a hbrk]
  · exact hzero

section calls

variable (h : Sound clear av U s)

include h

theorem Sound.kept (howns : Owns av arena' V) (hsub : U ⊆ V) (hkept : Kept av U s.arena arena') :
    Sound clear av V ⟨arena', s.client⟩ := by
  refine ⟨howns, ?_, h.nodup, ?_, fun hc => hkept.clearBehind (h.behind hc)⟩
  · exact fun b hb => (h.housed b hb).mono fun _ _ _ hin => hsub hin
  · exact fun b hb a ha => (hkept.block (h.housed b hb) ha).trans (h.seen b hb a ha)

theorem Sound.handed (hh : Handed av (request2size bytes) U s.arena arena' v)
    (hroom : bytes + 4 ≤ request2size bytes)
    (hmem : ∀ a, InBlock (v + 8, bytes) a → arena'.mem a = mem a) :
    ∃ V, Sound clear av V ⟨arena', s.client.receive (v + 8) bytes mem⟩ := by
  obtain ⟨hkept, hfresh, z, howns, hfit, -, -⟩ := hh
  have hnew : Houses (insert (v, z) U) (v + 8, bytes) :=
    ⟨v, z, rfl, by dsimp only; omega, Set.mem_insert _ _⟩
  have hold (b : Nat × Nat) (hb : b ∈ s.client.blocks) : Houses (insert (v, z) U) b :=
    (h.housed b hb).mono fun _ _ _ hin => Set.mem_insert_of_mem _ hin
  refine ⟨insert (v, z) U, ?_⟩
  rw [Client.receive, if_neg (by omega)]
  refine ⟨howns, ?_, ?_, ?_, fun hc => hkept.clearBehind (h.behind hc)⟩
  · intro b hb
    rcases List.mem_cons.mp hb with rfl | hb
    · exact hnew
    · exact hold b hb
  · refine List.nodup_cons.mpr ⟨?_, h.nodup⟩
    intro hmem
    obtain ⟨b, hb, hplace⟩ := List.mem_map.mp hmem
    obtain ⟨w, y, hw, -, hin⟩ := h.housed b hb
    obtain rfl : w = v := by
      dsimp only at hplace
      omega
    exact hfresh y hin
  · intro b hb a ha
    dsimp only
    split_ifs with hblock
    · exact hmem a hblock
    · rcases List.mem_cons.mp hb with rfl | hb
      · exact absurd ha hblock
      · exact (hkept.block (h.housed b hb) ha).trans (h.seen b hb a ha)

theorem Sound.malloc (hbytes : bytes < 2147479525 ∨ 2147483648 ≤ bytes ∧ bytes < 4294967296)
    (hfuel : 536870912 < fuel) :
    ∃ s' V, heapCall av fuel s (.malloc bytes) = some s' ∧ Sound clear av V s' := by
  obtain ⟨P, ts, bins, hrest, hused⟩ := h.owns
  rcases hbytes with hbytes | hnegative
  swap
  · rw [heapCall, hrest.malloc_negative hnegative.1 hnegative.2 fuel]
    exact ⟨_, U, rfl, h⟩
  obtain ⟨-, hroom, -⟩ := request2size_spec hbytes
  obtain ⟨r, arena', hrun, hcase⟩ := hrest.malloc hbytes hfuel
  rw [heapCall, hrun]
  rw [hused] at hcase
  rcases hcase with ⟨rfl, hrefused, -⟩ | ⟨v, rfl, hhanded⟩
  · obtain ⟨bins', hrest'⟩ := hrefused.atRest
    have howns := hrest'.holds
    have hkept := hrefused.kept
    rw [hused] at howns hkept
    exact ⟨_, U, rfl, h.kept howns le_rfl hkept⟩
  · obtain ⟨V, hsound⟩ := h.handed hhanded hroom fun _ _ => rfl
    exact ⟨_, V, rfl, hsound⟩

theorem Sound.calloc (hmay : clear ∧ n * e < 2147479525) (hfuel : 536870912 < fuel) :
    ∃ s' V, heapCall av fuel s (.calloc n e) = some s' ∧ Sound clear av V s' := by
  obtain ⟨P, ts, bins, hrest, hused⟩ := h.owns
  obtain ⟨-, hroom, -⟩ := request2size_spec hmay.2
  obtain ⟨r, arena', hrun, hcase⟩ := hrest.calloc hmay.2 hfuel (h.behind hmay.1)
  rw [heapCall, hrun]
  rw [hused] at hcase
  rcases hcase with ⟨rfl, hkept, V, hsub, howns⟩ | ⟨v, rfl, hhanded, hzero⟩
  · exact ⟨_, V, rfl, h.kept howns hsub hkept⟩
  · obtain ⟨V, hsound⟩ := h.handed hhanded hroom fun a ha => hzero a ha.1 ha.2
    exact ⟨_, V, rfl, hsound⟩

theorem Sound.free (k : Nat) (hfuel : 536870912 < fuel) :
    ∃ s' V, heapCall av fuel s (.free k) = some s' ∧ Sound clear av V s' := by
  rw [heapCall]
  dsimp only
  have hm := s.client.block_cases k
  generalize s.client.block k = m at hm ⊢
  have hnodup := h.nodup.sublist (List.filter_sublist (p := (·.1 ≠ m)).map Prod.fst)
  rcases hm with rfl | ⟨b, hb, rfl⟩
  · have hrun : NonOsLite.free av fuel s.arena 0 = some s.arena := if_pos rfl
    rw [hrun]
    refine ⟨_, U, rfl, h.owns, ?_, hnodup, ?_, h.behind⟩
    · exact fun b hb => h.housed b (List.mem_filter.mp hb).1
    · exact fun b hb => h.seen b (List.mem_filter.mp hb).1
  · obtain ⟨v, z, hplace, -, hin⟩ := h.housed b hb
    obtain ⟨P, ts, bins, hrest, rfl⟩ := h.owns
    obtain ⟨arena', hrun, howns, hkept⟩ := hrest.free hin hfuel
    rw [hplace, hrun]
    have hhoused (b' : Nat × Nat) (hb' : b' ∈ s.client.blocks.filter (·.1 ≠ v + 8)) :
        b' ∈ s.client.blocks ∧ Houses (ofKind .used P ts \ {(v, z)}) b' := by
      obtain ⟨hb', hne⟩ := List.mem_filter.mp hb'
      refine ⟨hb', (h.housed b' hb').mono ?_⟩
      rintro w y hw hin
      refine ⟨hin, ?_⟩
      rintro ⟨rfl, rfl⟩
      simp [hw] at hne
    refine ⟨_, _, rfl, howns, fun b' hb' => (hhoused b' hb').2, hplace ▸ hnodup, ?_,
      fun hc => hkept.clearBehind (h.behind hc)⟩
    intro b' hb' a ha
    obtain ⟨hold, hhouse⟩ := hhoused b' hb'
    exact (hkept.block hhouse ha).trans (h.seen b' hold a ha)

theorem Sound.write (ha : ∃ b ∈ s.client.blocks, InBlock b a) :
    ∃ s' V, heapCall av fuel s (.write a c) = some s' ∧ Sound clear av V s' := by
  obtain ⟨b, hb, hlo, hhi⟩ := ha
  obtain ⟨v, z, hplace, hroom, hin⟩ := h.housed b hb
  have hend := (h.owns.inside hin).2.2
  refine ⟨_, U, rfl, h.owns.payload hin ?_, h.housed, h.nodup, ?_, ?_⟩
  · intro x hx
    exact Function.update_of_ne (by omega) _ _
  · intro b' hb' x hx
    rcases eq_or_ne x a with rfl | hne
    · simp [Arena.mem, Arena.withMem]
    · have hseen := h.seen b' hb' x hx
      simpa [Arena.mem, Arena.withMem, Function.update_of_ne hne] using hseen
  · intro hc x hx
    exact (Function.update_of_ne (by simp only [Arena.withMem] at hx; omega) _ _).trans
      (h.behind hc x hx)

theorem Sound.mallocTrim (hpad : pad < 2147479552) :
    ∃ s' V, heapCall av fuel s (.mallocTrim pad) = some s' ∧ Sound clear av V s' := by
  obtain ⟨P, ts, bins, hrest, hused⟩ := h.owns
  rcases eq_or_ne ts [] with rfl | hts
  · have hsame := hrest.trimFresh hpad
    refine ⟨_, U, rfl, ?_⟩
    rw [hsame]
    exact h
  · obtain ⟨pre, z, rfl, -⟩ := hrest.layout.at_top hts
    obtain ⟨howns, hkept⟩ := hrest.mallocTrim pad hpad
    rw [hused] at howns hkept
    exact ⟨_, U, rfl, h.kept howns le_rfl hkept⟩

theorem Sound.step (hmay : s.client.May clear call) (hfuel : 536870912 < fuel) :
    ∃ s' V, heapCall av fuel s call = some s' ∧ Sound clear av V s' := by
  cases call with
  | malloc bytes => exact h.malloc hmay hfuel
  | calloc n e => exact h.calloc hmay hfuel
  | free k => exact h.free k hfuel
  | mallocTrim pad => exact h.mallocTrim hmay
  | write a c => exact h.write hmay

end calls

theorem Sound.run (h : Sound clear av U s) (hmay : MayRun clear av fuel s calls)
    (hfuel : 536870912 < fuel) :
    ∃ s' V, heapRun av fuel s calls = some s' ∧ Sound clear av V s' := by
  induction calls generalizing s U with
  | nil => exact ⟨s, U, rfl, h⟩
  | cons call calls ih =>
    obtain ⟨s₁, V, hcall, hsound⟩ := h.step hmay.1 hfuel
    obtain ⟨s', W, hrun, hsound'⟩ := ih hsound (hmay.2 s₁ hcall)
    refine ⟨s', W, ?_, hsound'⟩
    rw [heapRun, hcall]
    exact hrun

theorem avWord_lt (hav : AvFits av) (hi : i < 258) : avWord av i < 4294967296 := by
  have hbelow := hav.below
  rw [avWord]
  split_ifs
  · decide
  · rw [binAt]
    omega

theorem le32_loadAv (hav : AvFits av) (hi : i < 258) :
    le32 (loadAv av mem) (av + 4 * i) = avWord av i := by
  have hlt := avWord_lt hav hi
  have hbyte (k : Nat) (hk : k < 4) :
      loadAv av mem (av + (4 * i + k)) = UInt8.ofNat (avWord av i / 256 ^ k) := by
    rw [loadAv, if_pos (by omega), show (av + (4 * i + k) - av) / 4 = i by omega,
      show (av + (4 * i + k) - av) % 4 = k by omega]
  have hfirst := hbyte 0 (by decide)
  rw [Nat.add_zero] at hfirst
  simp only [ByteBuf.le32, le16, Nat.add_assoc, hfirst, hbyte 1 (by decide), hbyte 2 (by decide),
    hbyte 3 (by decide), Nat.reduceAdd, Nat.reducePow, UInt8.toNat_ofNat']
  omega

theorem links_loadAv (hav : AvFits av) (hi : i < 128) :
    fd (loadAv av mem) (binAt av i) = binAt av i ∧ bk (loadAv av mem) (binAt av i) = binAt av i := by
  constructor
  · rw [fd, binAt, show av + 8 * i + 8 = av + 4 * (2 * i + 2) by omega, le32_loadAv hav (by omega),
      avWord, if_neg (by omega), binAt]
    omega
  · rw [bk, binAt, show av + 8 * i + 12 = av + 4 * (2 * i + 3) by omega, le32_loadAv hav (by omega),
      avWord, if_neg (by omega), binAt]
    omega

theorem atRest_boot (hregion : Region av heap stackEnd) (hroom : heap ≤ stackEnd) :
    AtRest av (bootProcess av heap stackEnd mem).arena 0 [] fun _ => [] := by
  have hav := hregion.array
  have htop : top av (loadAv av mem) = av := (links_loadAv hav (by decide : 0 < 128)).1
  have hblocks : binblocks av (loadAv av mem) = 0 := le32_loadAv hav (by decide : 1 < 258)
  refine ⟨⟨hregion, .inl rfl, by simp, trivial, ?_, ?_, ?_, .inl ⟨rfl, htop, hblocks⟩⟩,
    ⟨le_rfl, hroom⟩, .inl rfl⟩
  · refine ⟨?_, by simp, by simp, by simp, by simp⟩
    intro i _ hi
    exact List.isChain_pair.mpr (links_loadAv hav hi)
  · exact ⟨by simp, by simp, by simp⟩
  · exact fun i _ hne => absurd rfl hne

def reusedArena : Arena :=
  ((heapRun 4096 536870913 (bootProcess 4096 8192 65536 fun _ => 0)
    [.malloc 100, .malloc 200, .free 1]).map Process.arena).getD ⟨Heap.init 0 0 fun _ => 0, 0⟩

def reusedTiles : List Tile := [⟨104, .free⟩, ⟨208, .used⟩, ⟨3784, .top⟩]

def reusedBins : Bins := fun i => if i = 13 then [8192] else []

theorem mem_reusedBins : v ∈ reusedBins i ↔ i = 13 ∧ v = 8192 := by
  rw [reusedBins]
  split_ifs with hi
  · simp [hi]
  · simp [hi]

theorem reused_rings : Rings 4096 reusedArena.mem reusedBins := by
  have hlinks : ∀ i < 128, 1 ≤ i → i ≠ 13 → fd reusedArena.mem (binAt 4096 i) = binAt 4096 i ∧
      bk reusedArena.mem (binAt 4096 i) = binAt 4096 i := by decide +kernel
  have hlisted : fd reusedArena.mem (binAt 4096 13) = 8192 ∧ bk reusedArena.mem 8192 = binAt 4096 13 ∧
      fd reusedArena.mem 8192 = binAt 4096 13 ∧ bk reusedArena.mem (binAt 4096 13) = 8192 := by
    decide +kernel
  constructor
  · intro i hone hi
    rcases eq_or_ne i 13 with rfl | hne
    · exact List.isChain_cons_cons.mpr ⟨⟨hlisted.1, hlisted.2.1⟩,
        List.isChain_pair.mpr ⟨hlisted.2.2.1, hlisted.2.2.2⟩⟩
    · rw [reusedBins, if_neg hne]
      exact List.isChain_pair.mpr (hlinks i hi hone hne)
  · intro i
    rw [reusedBins]
    split_ifs <;> simp
  · intro i j a hi hj
    rw [(mem_reusedBins.mp hi).1, (mem_reusedBins.mp hj).1]
  · intro i a ha
    rw [(mem_reusedBins.mp ha).1]
    decide
  · intro i a ha
    rw [(mem_reusedBins.mp ha).2]
    exact ⟨by decide, by decide, by decide⟩

theorem reused_stocked : Stocked reusedBins (ofKind .free 8192 reusedTiles) := by
  constructor
  · intro i a ha
    obtain ⟨rfl, rfl⟩ := mem_reusedBins.mp ha
    exact ⟨104, by simp [reusedTiles, ofKind], Or.inr (by decide)⟩
  · intro x hx
    have hx : x = (8192, 104) := by simpa [reusedTiles, ofKind] using hx
    exact ⟨13, mem_reusedBins.mpr ⟨rfl, hx ▸ rfl⟩⟩
  · decide

theorem reused_atRest : AtRest 4096 reusedArena 8192 reusedTiles reusedBins := by
  have hstart : reusedArena.heap.memMallocStart = 8192 := by decide +kernel
  have hstop : reusedArena.heap.memMallocEnd = 65536 := by decide +kernel
  have hbrk : reusedArena.heap.memMallocBrk = 12288 := by decide +kernel
  have hbase : reusedArena.sbrkBase ≠ noSbrkBase := by decide +kernel
  have htop : top 4096 reusedArena.mem = 8504 := by decide +kernel
  have htags : (le32 reusedArena.mem 8196 = 105 ∧ le32 reusedArena.mem 8296 = 104) ∧
      le32 reusedArena.mem 8300 = 208 ∧ le32 reusedArena.mem 8508 = 3785 := by decide +kernel
  have hmarks : (binblocks 4096 reusedArena.mem).testBit 3 := by decide +kernel
  refine ⟨⟨?_, ?_, by decide, ?_, reused_rings, reused_stocked, ?_, ?_⟩, ?_, ?_⟩
  · rw [hstart, hstop]
    exact ⟨⟨by decide, by decide⟩, by decide, by decide, by decide⟩
  · rw [hstart, hstop]
    exact Or.inr (by decide)
  · exact ⟨⟨Or.inl rfl, by decide, by decide, htags.1.1, fun _ => htags.1.2⟩,
      ⟨Or.inr ⟨rfl, rfl⟩, by decide, by decide, htags.2.1, fun h => by cases h⟩,
      ⟨Or.inl rfl, by decide, by decide, htags.2.2, fun h => by cases h⟩, trivial⟩
  · intro i _ hne
    obtain ⟨a, ha⟩ := List.exists_mem_of_ne_nil _ hne
    rw [(mem_reusedBins.mp ha).1]
    exact hmarks
  · rw [htop]
    exact Or.inr ⟨3784, by simp [reusedTiles, ofKind]⟩
  · exact ⟨by omega, by omega⟩
  · rw [hbrk]
    exact Or.inr ⟨by decide, by decide, hbase⟩

theorem malloc_short (h : AtRest av arena P ts bins) (hlo : 2147483637 ≤ bytes)
    (hhi : bytes < 2147483648) (hfuel : 536870912 < fuel) :
    malloc av fuel arena bytes = malloc av fuel arena 0 ∧
      ∃ r arena', malloc av fuel arena bytes = some (r, arena') ∧
        (r = 0 ∧ (∀ x ∈ ofKind .free P ts, x.2 < 16) ∧ (∀ x ∈ ofKind .top P ts, x.2 < 32) ∧
            arena.heap.memMallocEnd < arena.heap.memMallocBrk + 8232 ∨
          ∃ v z, r = v + 8 ∧ z < 32 ∧ Owns av arena' (insert (v, z) (ofKind .used P ts))) := by
  have hpadded : malloc av fuel arena bytes = malloc av fuel arena 0 := malloc_padded_over hlo hhi
  obtain ⟨r, arena', hrun, hcase⟩ := h.malloc (by decide : 0 < 2147479525) hfuel
  refine ⟨hpadded, r, arena', hpadded.trans hrun, ?_⟩
  rcases hcase with ⟨hr, hrefused, hfree⟩ | ⟨v, hr, -, -, z, howns, -, hexact, -⟩
  · have hleast : request2size 0 = 16 := by decide
    have hroom : arena.heap.memMallocBrk + request2size 0 + 8216 =
        arena.heap.memMallocBrk + 8232 := by
      have hsum : request2size 0 + 8216 = 8232 := by decide
      rw [Nat.add_assoc, hsum]
    rw [hleast] at hfree
    exact .inl ⟨hr, hfree, fun x hx => (hrefused.top x hx).trans_eq (by rw [hleast]),
      hrefused.behind.trans_eq hroom⟩
  · exact .inr ⟨v, z, hr, hexact, howns⟩

theorem malloc_short_reused :
    malloc 4096 536870913 reusedArena 2147483647 = malloc 4096 536870913 reusedArena 0 ∧
      ∃ v z arena', malloc 4096 536870913 reusedArena 2147483647 = some (v + 8, arena') ∧ z < 32 ∧
        Owns 4096 arena' (insert (v, z) (ofKind .used 8192 reusedTiles)) := by
  obtain ⟨hpadded, r, arena', hrun, hcase⟩ := malloc_short reused_atRest
    (show 2147483637 ≤ 2147483647 by decide) (by decide) (by decide : 536870912 < 536870913)
  rcases hcase with ⟨-, -, htop, -⟩ | ⟨v, z, rfl, hz, howns⟩
  · exact absurd (htop (8504, 3784) (by simp [reusedTiles, ofKind])) (by decide)
  · exact ⟨hpadded, v, z, arena', hrun, hz, howns⟩

theorem malloc_null (h : AtRest av arena P ts bins) (hbytes : bytes < 2147479525)
    (hfuel : 536870912 < fuel) : ∃ r arena', malloc av fuel arena bytes = some (r, arena') ∧
      (r = 0 → (∀ x ∈ ofKind .free P ts, x.2 < bytes + 16) ∧
        (∀ x ∈ ofKind .top P ts, x.2 < bytes + 32) ∧
        arena.heap.memMallocEnd < arena.heap.memMallocBrk + bytes + 8232) := by
  obtain ⟨-, -, hpadded⟩ := request2size_spec hbytes
  obtain ⟨r, arena', hrun, hcase⟩ := h.malloc hbytes hfuel
  refine ⟨r, arena', hrun, ?_⟩
  rintro rfl
  rcases hcase with ⟨-, hrefused, hfree⟩ | ⟨v, hr, -⟩
  · have hbehind := hrefused.behind
    exact ⟨fun x hx => (hfree x hx).trans_le hpadded, fun x hx => (hrefused.top x hx).trans_le
      (by omega), by omega⟩
  · omega

theorem malloc_null_reused :
    ∃ r arena', malloc 4096 536870913 reusedArena 1000 = some (r, arena') ∧ r ≠ 0 := by
  obtain ⟨r, arena', hrun, hnull⟩ := malloc_null reused_atRest (show 1000 < 2147479525 by decide)
    (by decide : 536870912 < 536870913)
  refine ⟨r, arena', hrun, fun hr => ?_⟩
  exact absurd ((hnull hr).2.1 (8504, 3784) (by simp [reusedTiles, ofKind])) (by decide)

theorem clear_boot (hregion : Region av heap stackEnd) (hclear : ∀ a, heap ≤ a → mem a = 0)
    (a : Nat) (ha : heap ≤ a) : loadAv av mem a = 0 := by
  have hbehind := hregion.behind
  rw [loadAv, if_neg (by omega), hclear a ha]

theorem malloc_runs (hregion : Region av heap stackEnd) (hroom : heap ≤ stackEnd)
    (hfuel : 536870912 < fuel) (hclear : clear → ∀ a, heap ≤ a → mem a = 0)
    (hmay : MayRun clear av fuel (bootProcess av heap stackEnd mem) calls) :
    ∃ s', heapRun av fuel (bootProcess av heap stackEnd mem) calls = some s' ∧ BlocksRight s' := by
  have hstart : Sound clear av ∅ (bootProcess av heap stackEnd mem) :=
    ⟨(atRest_boot hregion hroom).holds, by simp [bootProcess], by simp [bootProcess],
      by simp [bootProcess], fun hc => clear_boot hregion (hclear hc)⟩
  obtain ⟨s', V, hrun, hsound⟩ := hstart.run hmay hfuel
  exact ⟨s', hrun, hsound.blocksRight⟩

def sampleHeapCalls : List HeapCall :=
  [.malloc 100, .calloc 30 40, .write 8200 7, .malloc 200, .free 1, .mallocTrim 0, .malloc 40,
    .write 8311 9]

theorem malloc_runs_blocks :
    ∃ s', heapRun 4096 536870913 (bootProcess 4096 8192 65536 fun _ => 0) sampleHeapCalls = some s' ∧
      s'.client.blocks = [(8304, 40), (9512, 200), (8200, 100)] ∧ s'.client.view 8200 = 7 ∧
      s'.client.view 8311 = 9 ∧ BlocksRight s' := by
  have hregion : Region 4096 8192 65536 := ⟨⟨by decide, by decide⟩, by decide, by decide, by decide⟩
  have hmay : MayRun True 4096 536870913 (bootProcess 4096 8192 65536 fun _ => 0) sampleHeapCalls := by
    decide +kernel
  have hheld : (heapRun 4096 536870913 (bootProcess 4096 8192 65536 fun _ => 0)
      sampleHeapCalls).map (fun s => (s.client.blocks, s.client.view 8200, s.client.view 8311)) =
      some ([(8304, 40), (9512, 200), (8200, 100)], 7, 9) := by decide +kernel
  obtain ⟨s', hrun, hright⟩ := malloc_runs hregion (by decide) (by decide) (fun _ _ _ => rfl) hmay
  rw [hrun, Option.map_some, Option.some_inj, Prod.mk.injEq, Prod.mk.injEq] at hheld
  exact ⟨s', hrun, hheld.1, hheld.2.1, hheld.2.2, hright⟩

end NonOsLite
