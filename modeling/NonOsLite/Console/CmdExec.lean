import NonOsLite.Console.LineEditor
import NonOsLite.Console.Strtok

namespace NonOsLite.Console
open ByteBuf BoundedSink Tokens

-- A table entry; the null name that ends a table is the end of the list.
structure Cmd (F : Type) where
  name : List UInt8
  nul_free : 0 ∉ name
  func : Option F

structure Call (F : Type) where
  func : F
  argc : Nat
  argv : Nat → Nat
  mem : Buf

inductive Effect (F : Type) where
  | call (c : Call F)
  | doHelp (argc : Nat)

structure Outcome (F : Type) where
  rc : Int
  -- the stores into argv, index and pointer
  stores : List (Nat × Nat)
  effects : List (Effect F)

def argvSize : Nat := 16

def delimiters : List UInt8 := [32, 13, 10, 9]

section

variable {F : Type}

def argvLoop : Nat → Option Nat × Buf × Nat → Nat → List (Nat × Nat) →
    Option (Buf × Nat × List (Nat × Nat))
  | _, (none, p, _), argc, stores => some (p, argc, stores)
  | 0, (some _, _, _), _, _ => none
  | fuel + 1, (some tok, p, nextStart), argc, stores =>
      argvLoop fuel (strtokR p none delimiters nextStart) (argc + 1) (stores ++ [(argc, tok)])

def searchLoop (retval : Call F → Int) (p : Buf) (argc : Nat) (argv : Nat → Nat) :
    List (Cmd F) → List (Effect F)
  | [] => [.doHelp 1]
  | cmd :: tbl =>
      if strcmp (shift p (argv 0)) (ascii "help") = 0 then [.doHelp 1]
      else
        match decide (strcmp (shift p (argv 0)) cmd.name = 0), cmd.func with
        | true, some func =>
            let c : Call F := ⟨func, argc, argv, p⟩
            .call c :: if retval c ≠ 0 then [.doHelp 2] else []
        | _, _ => searchLoop retval p argc argv tbl

-- line is the position of the text in the memory, argv what the static array held before.
def cmdExec (fuel : Nat) (retval : Call F → Int) (p : Buf) (line nextStart : Nat)
    (argv : Nat → Nat) (tbl : List (Cmd F)) : Option (Outcome F) := do
  let (p, argc, stores) ← argvLoop fuel (strtokR p (some line) delimiters nextStart) 0 []
  let argv := applyWrites argv stores
  if argc = 0 then some ⟨0, stores, []⟩
  else if strcmp (shift p (argv 0)) (ascii "quit") = 0 then some ⟨1, stores, []⟩
  else some ⟨0, stores, searchLoop retval p argc argv tbl⟩

end

def lineTokens (line : List UInt8) : List (List UInt8) := tokens delimiters.contains line

def Points (p : Buf) (ptrs : List Nat) (ws : List (List UInt8)) : Prop :=
  List.Forall₂ (fun ptr w => HasString p ptr w) ptrs ws

def calls {F : Type} (effects : List (Effect F)) : List (Call F) :=
  effects.filterMap fun
    | .call c => some c
    | .doHelp _ => none

def commandOf {F : Type} (tbl : List (Cmd F)) (tok : List UInt8) : Option F :=
  (tbl.find? fun cmd => cmd.name = tok ∧ cmd.func.isSome).bind Cmd.func

def CallsOnly {F : Type} (ws : List (List UInt8)) (cs : List (Call F)) : Option F → Prop
  | some f => ∃ c, cs = [c] ∧ c.func = f ∧ c.argc = ws.length ∧
      ∀ (i : Nat) (h : i < ws.length), cString (shift c.mem (c.argv i)) = ws[i]
  | none => cs = []

def Dispatches {F : Type} (retval : Call F → Int) (p : Buf) (line nextStart : Nat)
    (argv : Nat → Nat) (tbl : List (Cmd F)) (text : List UInt8) : Prop :=
  ∃ out, (∀ fuel, text.length ≤ fuel →
      cmdExec fuel retval p line nextStart argv tbl = some out) ∧
    LineEdit.Inside argvSize out.stores ∧
    ((lineTokens text).head? ≠ some (ascii "quit") → (lineTokens text).head? ≠ some (ascii "help") →
      CallsOnly (lineTokens text) (calls out.effects)
        ((lineTokens text).head?.bind (commandOf tbl)))

variable {F : Type} {p p' : Buf} {s : Option Nat} {savePtr fuel argc i : Nat} {l w : List UInt8}
  {stores : List (Nat × Nat)}

theorem argvLoop_blank {ds : List UInt8} (h : HasString p (s.getD savePtr) ds)
    (hds : ∀ a ∈ ds, delimiters.contains a = true) :
    argvLoop fuel (strtokR p s delimiters savePtr) argc stores = some (p, argc, stores) := by
  rw [strtokR_blank h hds]
  cases fuel <;> rfl

theorem argvLoop_spec (h : HasString p (s.getD savePtr) l) (hfuel : (lineTokens l).length ≤ fuel) :
    ∃ p' ptrs, argvLoop fuel (strtokR p s delimiters savePtr) argc stores =
        some (p', argc + (lineTokens l).length, stores ++ stamp argc ptrs) ∧
      Points p' ptrs (lineTokens l) ∧ ∀ i < s.getD savePtr, p' i = p i := by
  induction hn : l.length using Nat.strong_induction_on generalizing p s savePtr l argc stores fuel with
  | _ n ih =>
    subst hn
    cases scan delimiters.contains l with
    | blank _ hds =>
      have htokens : lineTokens l = [] := tokens_blank hds
      refine ⟨p, [], ?_, ?_, fun _ _ => rfl⟩
      · rw [argvLoop_blank h hds, htokens]
        simp [stamp]
      · rw [htokens]
        exact List.Forall₂.nil
    | last ds w hds hw hne =>
      have htokens : lineTokens (ds ++ w) = [w] := by
        rw [lineTokens, tokens_append hds, tokens_word hw hne]
      obtain ⟨fuel, rfl⟩ : ∃ k, fuel = k + 1 := by
        rw [htokens, List.length_singleton] at hfuel
        exact ⟨fuel - 1, by omega⟩
      have hword := h.drop
      have hrest : HasString p (s.getD savePtr + ds.length + w.length) [] :=
        HasString.drop (by rwa [List.append_nil])
      refine ⟨p, [s.getD savePtr + ds.length], ?_, ?_, fun _ _ => rfl⟩
      · rw [strtokR_last h hds hw hne, argvLoop,
          argvLoop_blank (s := none) hrest (fun a ha => absurd ha List.not_mem_nil), htokens]
        rfl
      · rw [htokens]
        exact List.Forall₂.cons hword List.Forall₂.nil
    | more ds w d l hds hw hne hd =>
      have htokens : lineTokens (ds ++ (w ++ d :: l)) = w :: lineTokens l := by
        rw [lineTokens, tokens_append hds, tokens_word_cons hw hne hd]
        rfl
      obtain ⟨fuel, rfl⟩ : ∃ k, fuel = k + 1 := by
        rw [htokens, List.length_cons] at hfuel
        exact ⟨fuel - 1, by omega⟩
      generalize htok : s.getD savePtr + ds.length = tok at *
      have hword : HasString p tok (w ++ d :: l) := htok ▸ h.drop
      obtain ⟨htoken, hrest⟩ := hword.split
      have hlen : l.length < (ds ++ (w ++ d :: l)).length := by
        simp only [List.length_append, List.length_cons]
        omega
      rw [htokens, List.length_cons, Nat.succ_le_succ_iff] at hfuel
      obtain ⟨p', ptrs, hrun, hpoints, hframe⟩ :
          ∃ p' ptrs, argvLoop fuel (strtokR (store p (tok + w.length) [0]) none delimiters
              (tok + w.length + 1)) (argc + 1) (stores ++ [(argc, tok)]) =
            some (p', argc + 1 + (lineTokens l).length,
              stores ++ [(argc, tok)] ++ stamp (argc + 1) ptrs) ∧
          Points p' ptrs (lineTokens l) ∧
          ∀ i < tok + w.length + 1, p' i = store p (tok + w.length) [0] i :=
        ih l.length hlen hrest hfuel rfl
      have htoken' : HasString p' tok w := htoken.congr fun i _ hi => hframe i (Nat.lt_succ_of_le hi)
      refine ⟨p', tok :: ptrs, ?_, ?_, ?_⟩
      · rw [strtokR_more h hds hw hne hd, htok, argvLoop, hrun, htokens, List.length_cons,
          List.append_assoc, Nat.add_assoc argc, Nat.add_comm 1]
        rfl
      · rw [htokens]
        exact List.Forall₂.cons htoken' hpoints
      · intro i hi
        rw [hframe i (by omega), store_of_lt (by omega)]

theorem argvLoop_fuel {fuel' : Nat} {tok : Option Nat × Buf × Nat}
    {r : Buf × Nat × List (Nat × Nat)} (h : argvLoop fuel tok argc stores = some r)
    (hle : fuel ≤ fuel') : argvLoop fuel' tok argc stores = some r := by
  induction fuel generalizing fuel' tok argc stores with
  | zero =>
    obtain ⟨_ | ptr, p, save⟩ := tok
    · cases fuel' <;> exact h
    · cases h
  | succ fuel ih =>
    obtain ⟨_ | ptr, p, save⟩ := tok
    · cases fuel' <;> exact h
    · obtain ⟨fuel', rfl⟩ : ∃ k, fuel' = k + 1 := ⟨fuel' - 1, by omega⟩
      rw [argvLoop] at h ⊢
      exact ih h (by omega)

theorem strcmp_hasString {pos : Nat} {cs : List UInt8} (h : HasString p pos w) (hcs : 0 ∉ cs) :
    strcmp (shift p pos) cs = 0 ↔ cs = w := by
  have hiff : strcmp (shift p pos) cs = 0 ↔ StartsWith (shift p pos) (cs ++ [0]) := by
    rw [strcmp_eq_zero, startsWith_append, startsWith_iff, startsWith_cons]
    simp [StartsWith, bytes]
  rw [hiff]
  constructor
  · intro hstart
    have hc : cStringFrom (cs.length + w.length + 1) (shift p pos) = cs :=
      cStringFrom_eq hstart hcs (by omega)
    have hw : cStringFrom (cs.length + w.length + 1) (shift p pos) = w :=
      cStringFrom_eq h.1 h.2.1 (by omega)
    rw [← hc, hw]
  · rintro rfl
    exact h.1

theorem searchLoop_calls {retval : Call F → Int} {argv : Nat → Nat} (h : HasString p (argv 0) w)
    (hhelp : w ≠ ascii "help") (tbl : List (Cmd F)) :
    calls (searchLoop retval p argc argv tbl) =
      ((commandOf tbl w).map fun f => ⟨f, argc, argv, p⟩).toList := by
  have hnothelp : ¬strcmp (shift p (argv 0)) (ascii "help") = 0 := by
    rw [strcmp_hasString h (by decide)]
    exact fun heq => hhelp heq.symm
  induction tbl with
  | nil => rfl
  | cons cmd tbl ih =>
    have hname : decide (strcmp (shift p (argv 0)) cmd.name = 0) = decide (cmd.name = w) :=
      decide_eq_decide.mpr (strcmp_hasString h cmd.nul_free)
    rw [searchLoop, if_neg hnothelp, hname]
    by_cases hmatch : cmd.name = w
    · cases hfunc : cmd.func with
      | none =>
        simp only [hmatch, decide_true]
        rw [ih]
        simp [commandOf, hfunc]
      | some f =>
        simp only [hmatch, decide_true]
        by_cases hret : retval ⟨f, argc, argv, p⟩ = 0
        · simp [calls, commandOf, hmatch, hfunc, hret]
        · simp [calls, commandOf, hmatch, hfunc, hret]
    · simp only [hmatch, decide_false]
      rw [ih]
      simp [commandOf, hmatch]

theorem argv_stores {ptrs : List Nat} (argv : Nat → Nat) (h : i < ptrs.length) :
    applyWrites argv (stamp 0 ptrs) i = ptrs[i] := by
  rw [applyWrites_stamp, if_pos (Nat.zero_le i), Nat.sub_zero, List.getElem?_eq_getElem h]
  rfl

theorem argvLoop_line (nextStart : Nat) {line : Nat} (h : HasString p line l) :
    ∃ p' ptrs, Points p' ptrs (lineTokens l) ∧ ∀ fuel, l.length ≤ fuel →
      argvLoop fuel (strtokR p (some line) delimiters nextStart) 0 [] =
        some (p', (lineTokens l).length, stamp 0 ptrs) := by
  obtain ⟨p', ptrs, hrun, hpoints⟩ : ∃ p' ptrs,
      argvLoop l.length (strtokR p (some line) delimiters nextStart) 0 [] =
        some (p', 0 + (lineTokens l).length, [] ++ stamp 0 ptrs) ∧
      Points p' ptrs (lineTokens l) ∧ _ := argvLoop_spec h (length_tokens_le _ l)
  rw [Nat.zero_add, List.nil_append] at hrun
  exact ⟨p', ptrs, hpoints.1, fun fuel hfuel => argvLoop_fuel hrun hfuel⟩

theorem searchLoop_callsOnly {retval : Call F → Int} {argv : Nat → Nat} {ws : List (List UInt8)}
    (h : ∀ (i : Nat) (hi : i < (w :: ws).length), HasString p (argv i) (w :: ws)[i])
    (hhelp : w ≠ ascii "help") (tbl : List (Cmd F)) :
    CallsOnly (w :: ws) (calls (searchLoop retval p (w :: ws).length argv tbl))
      (commandOf tbl w) := by
  have hfirst : HasString p (argv 0) w := h 0 (Nat.succ_pos _)
  rw [searchLoop_calls hfirst hhelp]
  cases commandOf tbl w with
  | none => rfl
  | some f => exact ⟨_, rfl, rfl, rfl, fun i hi => (h i hi).cString⟩

theorem cmdExec_spec (retval : Call F → Int) (nextStart : Nat) (argv : Nat → Nat)
    (tbl : List (Cmd F)) {line : Nat} (h : HasString p line l) :
    ∃ out ptrs, (∀ fuel, l.length ≤ fuel →
        cmdExec fuel retval p line nextStart argv tbl = some out) ∧
      out.stores = stamp 0 ptrs ∧ ptrs.length = (lineTokens l).length ∧
      ((lineTokens l).head? ≠ some (ascii "quit") → (lineTokens l).head? ≠ some (ascii "help") →
        CallsOnly (lineTokens l) (calls out.effects)
          ((lineTokens l).head?.bind (commandOf tbl))) := by
  obtain ⟨p', ptrs, hpoints, hloop⟩ := argvLoop_line nextStart h
  have hlength : ptrs.length = (lineTokens l).length := hpoints.length_eq
  cases htokens : lineTokens l with
  | nil =>
    rw [htokens] at hloop hlength
    refine ⟨⟨0, stamp 0 ptrs, []⟩, ptrs, ?_, rfl, hlength, fun _ _ => rfl⟩
    intro fuel hfuel
    rw [cmdExec, hloop fuel hfuel]
    rfl
  | cons w ws =>
    have hstring (i : Nat) (hi : i < (lineTokens l).length) :
        HasString p' (applyWrites argv (stamp 0 ptrs) i) (lineTokens l)[i] := by
      rw [argv_stores argv (hlength ▸ hi)]
      exact hpoints.get (hlength ▸ hi) hi
    rw [htokens] at hloop hlength
    simp only [htokens] at hstring
    have hfirst : HasString p' (applyWrites argv (stamp 0 ptrs) 0) w := hstring 0 (Nat.succ_pos _)
    have hargc : (w :: ws).length ≠ 0 := Nat.succ_ne_zero _
    by_cases hquit : w = ascii "quit"
    · refine ⟨⟨1, stamp 0 ptrs, []⟩, ptrs, ?_, rfl, hlength, ?_⟩
      · intro fuel hfuel
        have hstrcmp := (strcmp_hasString hfirst (by decide)).mpr hquit.symm
        rw [cmdExec, hloop fuel hfuel]
        simp only [Option.bind_eq_bind, Option.bind_some, if_neg hargc, hstrcmp, if_true]
      · exact fun hne => absurd (congrArg some hquit) hne
    · refine ⟨⟨0, stamp 0 ptrs, searchLoop retval p' (w :: ws).length
        (applyWrites argv (stamp 0 ptrs)) tbl⟩, ptrs, ?_, rfl, hlength, ?_⟩
      · intro fuel hfuel
        have hstrcmp : ¬strcmp (shift p' (applyWrites argv (stamp 0 ptrs) 0)) (ascii "quit") = 0 := by
          rw [strcmp_hasString hfirst (by decide)]
          exact fun heq => hquit heq.symm
        rw [cmdExec, hloop fuel hfuel]
        simp only [Option.bind_eq_bind, Option.bind_some, if_neg hargc, if_neg hstrcmp]
      · intro _ hhelp
        have hne : w ≠ ascii "help" := fun heq => hhelp (congrArg some heq)
        exact searchLoop_callsOnly hstring hne tbl

theorem dispatches_iff (retval : Call F → Int) (nextStart : Nat) (argv : Nat → Nat)
    (tbl : List (Cmd F)) {line : Nat} (h : HasString p line l) :
    Dispatches retval p line nextStart argv tbl l ↔ (lineTokens l).length ≤ argvSize := by
  obtain ⟨out, ptrs, hrun, hstores, hlength, hcalls⟩ := cmdExec_spec retval nextStart argv tbl h
  have hinside : LineEdit.Inside argvSize out.stores ↔ (lineTokens l).length ≤ argvSize := by
    rw [hstores, LineEdit.Inside, forall_stamp_lt (Nat.zero_le _), Nat.zero_add, hlength]
  constructor
  · rintro ⟨out', hrun', hin, -⟩
    have hsame : out' = out :=
      Option.some.inj ((hrun' l.length (Nat.le_refl _)).symm.trans (hrun l.length (Nat.le_refl _)))
    exact hinside.mp (hsame ▸ hin)
  · exact fun hfew => ⟨out, hrun, hinside.mpr hfew, hcalls⟩

theorem cmd_exec_dispatches (retval : Call F → Int) (nextStart : Nat) (argv : Nat → Nat)
    (tbl : List (Cmd F)) {line : Nat} (hline : StartsWith (shift p line) (l ++ [0])) (hnul : 0 ∉ l)
    (hlen : l.length < cmdLen) :
    Dispatches retval p line nextStart argv tbl l ↔ (lineTokens l).length ≤ argvSize :=
  dispatches_iff retval nextStart argv tbl ⟨hline, hnul, Nat.lt_trans hlen (by decide)⟩

def cmdstrOf (text : List UInt8) : Buf := store (fun _ => 0) 0 (text ++ [0])

theorem cmd_exec_dispatches_md :
    Dispatches (fun _ => 0) (cmdstrOf (ascii "md 0x100  4")) 0 0 (fun _ => 0)
      [⟨ascii "?", by decide, none⟩, ⟨ascii "md", by decide, some 1⟩] (ascii "md 0x100  4") :=
  (cmd_exec_dispatches _ _ _ _ (by decide +kernel) (by decide) (by decide)).mpr
    (by decide +kernel)

theorem cmd_exec_argv_overrun : ¬∀ (F : Type) (retval : Call F → Int) (p : Buf) (line : Nat)
    (nextStart : Nat) (argv : Nat → Nat) (tbl : List (Cmd F)) (text : List UInt8),
    StartsWith (shift p line) (text ++ [0]) → 0 ∉ text → text.length < cmdLen →
    Dispatches retval p line nextStart argv tbl text := by
  intro h
  have hline : StartsWith (shift (cmdstrOf (ascii "md 1 2 3 4 5 6 7 8 9 a b c d e f 0")) 0)
      (ascii "md 1 2 3 4 5 6 7 8 9 a b c d e f 0" ++ [0]) := by decide +kernel
  have hright := h Nat (fun _ => 0) _ 0 0 (fun _ => 0) [] _ hline (by decide) (by decide)
  rw [dispatches_iff _ _ _ _ ⟨hline, by decide, by decide⟩] at hright
  exact absurd hright (by decide +kernel)

end NonOsLite.Console
