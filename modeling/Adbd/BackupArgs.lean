import Adbd.CString
import Mathlib.Data.List.Forall2
import Mathlib.Data.List.TakeWhile

/-!
# The Arguments of a Backup

`backup_service` goes through its argument string twice: it counts the fields between the
colons, to allocate the vector for `bu`, and then cuts the string at the colons and stores
where the fields start. Both loops are modelled on the string in memory and compared with the
list of its fields.

## Main definitions

* `backupArgc`, `backupArgv`: the two passes.
* `argFields`: the fields of a string.

## Main results

* `intercalate_argFields`: the fields, joined by colons, are the string, up to a colon behind
  it.
* `run_countArgs`, `run_fillArgs`: each pass goes over the fields.
* `backup_argv_agrees`: what is stored fills what was allocated.
-/

namespace Adbd

open CString

/-! ### The passes -/

/-- `':'`. -/
def colon : UInt8 := 58

/-- The loop of the first pass, over at most `n` bytes. -/
def countArgs : Nat → Nat → Nat → Acc Nat
  | 0, argc, _ => pure argc
  | n + 1, argc, p => do
      let b ← rd p
      if b = 0 then pure argc
      else do
        let e ← tokenEnd colon (n + 1) p
        let c ← rd e
        if c = colon then countArgs n (argc + 1) (e + 1) else countArgs n (argc + 1) e

/-- The first pass: the `argc` for which the vector is allocated, with a slot more than
that. -/
def backupArgc (n : Nat) : Option Nat → Acc Nat
  | none => pure 3
  | some args => countArgs n 3 args

/-- An entry of `bu_args`. -/
inductive BuArg
  | bu
  | portnum
  | operation
  | field (p : Nat)
  | null
deriving DecidableEq, Repr

/-- The loop of the second pass, over at most `n` bytes: the pointers that it stores, in the
order of their slots. -/
def fillArgs : Nat → Nat → Acc (List Nat)
  | 0, _ => pure []
  | n + 1, p => do
      let b ← rd p
      if b = 0 then pure []
      else do
        let e ← tokenEnd colon (n + 1) p
        let c ← rd e
        if c = colon then do
          wr e 0
          let ps ← fillArgs n (e + 1)
          pure (p :: ps)
        else do
          let ps ← fillArgs n e
          pure (p :: ps)

/-- The second pass: what it stores in the slots from the first on. -/
def backupArgv (n : Nat) (args : Option Nat) : Acc (List BuArg) := do
  let ps ← match args with
    | none => pure []
    | some args => fillArgs n args
  pure ([.bu, .portnum, .operation] ++ ps.map .field ++ [.null])

/-! ### The fields -/

/-- The fields of a string: each ends before a colon or with the string, and behind a colon at
the end there is none. -/
def argFields (s : List UInt8) : List (List UInt8) :=
  if s = [] then []
  else
    match _h : s.dropWhile (· ≠ colon) with
    | [] => [s.takeWhile (· ≠ colon)]
    | _ :: rest => s.takeWhile (· ≠ colon) :: argFields rest
termination_by s.length
decreasing_by
  have hle := (List.dropWhile_sublist (· ≠ colon) (l := s)).length_le
  rw [_h, List.length_cons] at hle
  exact hle

variable {s f rest : List UInt8} {m : Buf} {n p argc : Nat}

theorem argFields_nil : argFields [] = [] := by
  rw [argFields, if_pos rfl]

/-- A string without a colon is a field. -/
theorem argFields_last (hne : f ≠ []) (hf : colon ∉ f) : argFields f = [f] := by
  have hall : ∀ b ∈ f, decide (b ≠ colon) = true := fun b hb => by
    simpa using fun heq : b = colon => hf (heq ▸ hb)
  rw [argFields, if_neg hne]
  split
  · rw [List.takeWhile_eq_self_iff.mpr hall]
  · next hdrop =>
    rw [List.dropWhile_eq_nil_iff.mpr hall] at hdrop
    exact nomatch hdrop

/-- A field, a colon and the others. -/
theorem argFields_colon (hf : colon ∉ f) :
    argFields (f ++ colon :: rest) = f :: argFields rest := by
  have hall : ∀ b ∈ f, decide (b ≠ colon) = true := fun b hb => by
    simpa using fun heq : b = colon => hf (heq ▸ hb)
  have hdrop : (f ++ colon :: rest).dropWhile (· ≠ colon) = colon :: rest := by
    rw [List.dropWhile_append_of_pos hall]
    rfl
  have htake : (f ++ colon :: rest).takeWhile (· ≠ colon) = f := by
    rw [List.takeWhile_append_of_pos hall]
    simp
  rw [argFields, if_neg (by simp), htake]
  split
  · next hnil =>
    rw [hdrop] at hnil
    exact nomatch hnil
  · next hcons =>
    rw [hdrop] at hcons
    rw [(List.cons.inj hcons).2]

/-- The strings, by their first field. -/
theorem argString_cases (s : List UInt8) :
    s = [] ∨ (s ≠ [] ∧ colon ∉ s) ∨ ∃ f rest, colon ∉ f ∧ s = f ++ colon :: rest := by
  by_cases hcolon : colon ∈ s
  · obtain ⟨f, rest, rfl, hf⟩ := List.eq_append_cons_of_mem hcolon
    exact .inr (.inr ⟨f, rest, hf, rfl⟩)
  · by_cases hnil : s = []
    · exact .inl hnil
    · exact .inr (.inl ⟨hnil, hcolon⟩)

theorem argFields_ne_nil (h : s ≠ []) : argFields s ≠ [] := by
  rcases argString_cases s with rfl | ⟨hne, hs⟩ | ⟨f, rest, hf, rfl⟩
  · exact absurd rfl h
  · rw [argFields_last hne hs]
    exact List.cons_ne_nil _ _
  · rw [argFields_colon hf]
    exact List.cons_ne_nil _ _

/-- No field has a colon in it. -/
theorem colon_not_mem_argFields (h : f ∈ argFields s) : colon ∉ f := by
  induction hlen : s.length using Nat.strongRecOn generalizing s with
  | _ k ih =>
      rcases argString_cases s with rfl | ⟨hne, hs⟩ | ⟨g, rest, hg, rfl⟩
      · rw [argFields_nil] at h
        exact nomatch h
      · rw [argFields_last hne hs] at h
        exact List.mem_singleton.mp h ▸ hs
      · rw [argFields_colon hg] at h
        rcases List.mem_cons.mp h with rfl | h
        · exact hg
        · exact ih rest.length
            (by rw [← hlen, List.length_append, List.length_cons]; omega) h rfl

/-- **The fields, joined by colons, are the string**, or what is in front of a colon at its
end. -/
theorem intercalate_argFields (s : List UInt8) :
    [colon].intercalate (argFields s) = s ∨ [colon].intercalate (argFields s) ++
      [colon] = s := by
  induction hlen : s.length using Nat.strongRecOn generalizing s with
  | _ k ih =>
      rcases argString_cases s with rfl | ⟨hne, hs⟩ | ⟨f, rest, hf, rfl⟩
      · rw [argFields_nil]
        exact .inl rfl
      · rw [argFields_last hne hs]
        exact .inl List.intercalate_singleton
      · rw [argFields_colon hf]
        have hrest :=
          ih rest.length (by rw [← hlen, List.length_append, List.length_cons]; omega)
          rest rfl
        by_cases hnil : rest = []
        · subst hnil
          rw [argFields_nil]
          exact .inr (by rw [List.intercalate_singleton])
        · rw [List.intercalate_cons_of_ne_nil (argFields_ne_nil hnil), List.append_assoc,
            List.append_assoc]
          rcases hrest with hrest | hrest
          · exact .inl (by rw [hrest]; rfl)
          · exact .inr (by rw [List.append_assoc, hrest]; rfl)

/-! ### The string in memory -/

/-- The end of a field is its next colon, or the end of the string. -/
theorem tokenEnd_field (hf : colon ∉ f) (hzero : 0 ∉ f) (hm : Holds m p f)
    (hstop : m.bytes (p + f.length) = 0 ∨ m.bytes (p + f.length) = colon) (hn : f.length < n) :
    ((tokenEnd colon n p).run m).1 = p + f.length := by
  induction f generalizing n m p with
  | nil =>
      cases n with
      | zero => exact absurd hn (Nat.lt_irrefl 0)
      | succ n =>
          rw [tokenEnd, Acc.run_bind, Acc.run_rd]
          dsimp only
          rcases hstop with hstop | hstop <;> rw [List.length_nil, Nat.add_zero] at hstop
          · rw [hstop, if_neg (by decide), if_pos rfl]
            rfl
          · rw [hstop, if_pos rfl]
            rfl
  | cons b f ih =>
      cases n with
      | zero => exact absurd hn (Nat.not_lt_zero _)
      | succ n =>
          have hb : m.bytes p = b := hm 0 (Nat.succ_pos _)
          have hnext : p + (b :: f).length = p + 1 + f.length := by
            rw [List.length_cons]
            omega
          rw [List.mem_cons, not_or] at hf hzero
          rw [hnext] at hstop ⊢
          rw [tokenEnd, Acc.run_bind, Acc.run_rd]
          dsimp only
          rw [hb, if_neg (Ne.symm hf.1), if_neg (Ne.symm hzero.1)]
          refine ih hf.2 hzero.2 (fun i hi => ?_) (by rwa [Buf.touch_bytes])
            (Nat.lt_of_succ_lt_succ hn)
          have hi' := hm (i + 1) (Nat.succ_lt_succ hi)
          rw [Buf.touch_bytes, Nat.add_assoc, Nat.add_comm 1]
          exact hi'

/-- A string with its terminator is in memory. -/
structure CStringAt (m : Buf) (p : Nat) (s : List UInt8) : Prop where
  holds : Holds m p s
  zero : m.bytes (p + s.length) = 0
  nonzero : 0 ∉ s

theorem CStringAt.of_bytes {m' : Buf} (h : CStringAt m p s)
    (hb : ∀ i, p ≤ i → i ≤ p + s.length → m'.bytes i = m.bytes i) : CStringAt m' p s := by
  refine ⟨fun i hi => ?_, ?_, h.nonzero⟩
  · rw [hb _ (by omega) (by omega)]
    exact h.holds i hi
  · rw [hb _ (by omega) (Nat.le_refl _)]
    exact h.zero

/-- The empty string. -/
theorem CStringAt.nil_iff : CStringAt m p s → (m.bytes p = 0 ↔ s = []) := by
  intro h
  constructor
  · intro hp
    cases s with
    | nil => rfl
    | cons b s =>
        have hb : m.bytes p = b := h.holds 0 (Nat.succ_pos _)
        exact absurd (.head _) ((hb.symm.trans hp) ▸ h.nonzero)
  · rintro rfl
    exact h.zero

/-- What is left of a string at its end. -/
theorem CStringAt.ended {m' : Buf} (h : CStringAt m p s) (hb : m'.bytes = m.bytes) :
    CStringAt m' (p + s.length) [] :=
  ⟨nofun, by rw [hb]; exact h.zero, List.not_mem_nil⟩

/-- The first field of a string, and what is behind its colon. -/
theorem CStringAt.split (h : CStringAt m p (f ++ colon :: rest)) :
    Holds m p f ∧ m.bytes (p + f.length) = colon ∧ CStringAt m (p + f.length + 1) rest := by
  have hzero := h.nonzero
  rw [List.mem_append, List.mem_cons, not_or, not_or] at hzero
  have hlen : (f ++ colon :: rest).length = f.length + 1 + rest.length := by
    rw [List.length_append, List.length_cons]
    omega
  refine ⟨fun i hi => ?_, ?_, fun i hi => ?_, ?_, hzero.2.2⟩
  · rw [h.holds i (by omega), List.getElem_append_left hi]
  · rw [h.holds f.length (by omega), List.getElem_append_right (Nat.le_refl _)]
    simp
  · have hget := h.holds (f.length + (i + 1)) (by omega)
    rw [List.getElem_append_right (by omega)] at hget
    rw [Nat.add_assoc, Nat.add_assoc, Nat.add_comm 1, hget]
    simp
  · have hend := h.zero
    rwa [hlen, ← Nat.add_assoc, ← Nat.add_assoc] at hend

/-- What a pass finds in a string that is not empty: a field and a colon, or the last field. -/
theorem CStringAt.run_tokenEnd (h : CStringAt m p s) (hn : s.length < n) :
    ((tokenEnd colon n p).run (m.touch p)).2.bytes = m.bytes ∧
      ((∃ f rest, s = f ++ colon :: rest ∧ colon ∉ f ∧
          ((tokenEnd colon n p).run (m.touch p)).1 = p + f.length) ∨
        colon ∉ s ∧ ((tokenEnd colon n p).run (m.touch p)).1 = p + s.length) := by
  have hbytes := (tokenEnd_frame colon n p (m.touch p)).1
  rw [Buf.touch_bytes] at hbytes
  have hholds : ∀ f, Holds m p f → Holds (m.touch p) p f := fun f hf i hi => by
    rw [Buf.touch_bytes]
    exact hf i hi
  refine ⟨hbytes, ?_⟩
  rcases argString_cases s with rfl | ⟨-, hs⟩ | ⟨f, rest, hf, rfl⟩
  · exact .inr ⟨List.not_mem_nil, tokenEnd_field List.not_mem_nil List.not_mem_nil nofun
      (.inl (by rw [Buf.touch_bytes]; exact h.zero)) hn⟩
  · exact .inr ⟨hs, tokenEnd_field hs h.nonzero (hholds s h.holds)
      (.inl (by rw [Buf.touch_bytes]; exact h.zero)) hn⟩
  · obtain ⟨hfield, hcolon, -⟩ := h.split
    refine .inl ⟨f, rest, rfl, hf, tokenEnd_field hf (fun hzero => ?_) (hholds f hfield)
      (.inr (by rw [Buf.touch_bytes]; exact hcolon)) ?_⟩
    · exact h.nonzero (List.mem_append_left _ hzero)
    · rw [List.length_append] at hn
      omega

/-- **The first pass counts the fields.** -/
theorem run_countArgs (argc : Nat) (h : CStringAt m p s) (hn : s.length < n) :
    ((countArgs n argc p).run m).1 = argc + (argFields s).length ∧
      ((countArgs n argc p).run m).2.bytes = m.bytes := by
  induction n generalizing s m p argc with
  | zero => exact absurd hn (Nat.not_lt_zero _)
  | succ n ih =>
      rw [countArgs, Acc.run_bind, Acc.run_rd]
      dsimp only
      by_cases hnil : s = []
      · rw [if_pos (h.nil_iff.mpr hnil), hnil, argFields_nil]
        exact ⟨rfl, Buf.touch_bytes ..⟩
      · rw [if_neg (mt h.nil_iff.mp hnil), Acc.run_bind, Acc.run_bind, Acc.run_rd]
        obtain ⟨hbytes, hend⟩ := h.run_tokenEnd hn
        set m₁ := ((tokenEnd colon (n + 1) p).run (m.touch p)).2
        dsimp only
        rcases hend with ⟨f, rest, rfl, hf, hend⟩ | ⟨hs, hend⟩
        · obtain ⟨-, hcolon, hrest⟩ := h.split
          rw [List.length_append, List.length_cons] at hn
          rw [hend, hbytes, if_pos hcolon, argFields_colon hf]
          have hrest' : CStringAt (m₁.touch (p + f.length)) (p + f.length + 1) rest :=
            hrest.of_bytes fun i _ _ => by rw [Buf.touch_bytes, hbytes]
          obtain ⟨hcount, hb⟩ := ih (argc + 1) hrest' (by omega)
          refine ⟨?_, by rw [hb, Buf.touch_bytes, hbytes]⟩
          rw [hcount, List.length_cons]
          omega
        · have hpos := List.length_pos_iff.mpr hnil
          rw [hend, hbytes, h.zero, if_neg (by decide), argFields_last hnil hs]
          have hended : CStringAt (m₁.touch (p + s.length)) (p + s.length) [] :=
            h.ended (by rw [Buf.touch_bytes, hbytes])
          obtain ⟨hcount, hb⟩ := ih (argc + 1) hended (by rw [List.length_nil]; omega)
          refine ⟨?_, by rw [hb, Buf.touch_bytes, hbytes]⟩
          rw [hcount, argFields_nil]
          rfl

/-- **The second pass stores the fields**, and writes no byte outside of the string. -/
theorem run_fillArgs (h : CStringAt m p s) (hn : s.length < n) :
    List.Forall₂ (CStringAt ((fillArgs n p).run m).2) ((fillArgs n p).run m).1 (argFields s) ∧
      ∀ i, i < p ∨ p + s.length ≤ i → ((fillArgs n p).run m).2.bytes i = m.bytes i := by
  induction n generalizing s m p with
  | zero => exact absurd hn (Nat.not_lt_zero _)
  | succ n ih =>
      rw [fillArgs, Acc.run_bind, Acc.run_rd]
      dsimp only
      by_cases hnil : s = []
      · rw [if_pos (h.nil_iff.mpr hnil), hnil, argFields_nil]
        exact ⟨.nil, fun i _ => by rw [Acc.run_pure, Buf.touch_bytes]⟩
      · rw [if_neg (mt h.nil_iff.mp hnil), Acc.run_bind, Acc.run_bind, Acc.run_rd]
        obtain ⟨hbytes, hend⟩ := h.run_tokenEnd hn
        set m₁ := ((tokenEnd colon (n + 1) p).run (m.touch p)).2
        dsimp only
        rcases hend with ⟨f, rest, rfl, hf, hend⟩ | ⟨hs, hend⟩
        · obtain ⟨hfield, hcolon, hrest⟩ := h.split
          have hlen : (f ++ colon :: rest).length = f.length + 1 + rest.length := by
            rw [List.length_append, List.length_cons]
            omega
          rw [hend, hbytes, if_pos hcolon, argFields_colon hf]
          simp only [Acc.run_bind, Acc.run_wr, Acc.run_pure]
          set m₂ := (m₁.touch (p + f.length)).put (p + f.length) 0 with hm₂
          have hput : ∀ i, i ≠ p + f.length → m₂.bytes i = m.bytes i := fun i hi => by
            rw [hm₂, Buf.put_bytes_of_ne _ _ hi, Buf.touch_bytes, hbytes]
          obtain ⟨hfields, hb⟩ := ih (m := m₂) (hrest.of_bytes fun i hi _ => hput i (by omega))
            (by omega)
          refine ⟨.cons ⟨fun i hi => ?_, ?_, fun hzero => ?_⟩ hfields, fun i hi => ?_⟩
          · rw [hb _ (.inl (by omega)), hput _ (by omega)]
            exact hfield i hi
          · rw [hb _ (.inl (Nat.lt_succ_self _)), hm₂]
            exact Function.update_self ..
          · exact h.nonzero (List.mem_append_left _ hzero)
          · rw [hb i (by omega), hput i (by omega)]
        · have hpos := List.length_pos_iff.mpr hnil
          rw [hend, hbytes, h.zero, if_neg (by decide), argFields_last hnil hs]
          simp only [Acc.run_bind, Acc.run_pure]
          obtain ⟨hfields, hb⟩ := ih (m := m₁.touch (p + s.length))
            (h.ended (by rw [Buf.touch_bytes, hbytes])) (show [].length < n by
              rw [List.length_nil]; omega)
          have hkeep : ∀ i, ((fillArgs n (p + s.length)).run
              (m₁.touch (p + s.length))).2.bytes i = m.bytes i := fun i => by
            rw [hb i (by rw [List.length_nil]; omega), Buf.touch_bytes, hbytes]
          rw [argFields_nil] at hfields
          rw [List.forall₂_nil_right_iff.mp hfields]
          exact ⟨.cons (h.of_bytes fun i _ _ => hkeep i) .nil, fun i _ => hkeep i⟩

/-! ### The vector -/

/-- The argument of the service: a string in memory, or `NULL`, which has no fields. -/
def ArgString (m : Buf) (s : List UInt8) : Option Nat → Prop
  | none => s = []
  | some args => CStringAt m args s

/-- **The two passes agree**: the vector is full with its `NULL` in the last slot that the
first pass allocated, and in memory its entries are, as strings, the parts of the argument
between the colons, which give it back when they are joined, up to one colon at the end. -/
theorem backup_argv_agrees (m : Buf) (s : List UInt8) (args : Option Nat) (n : Nat)
    (h : ArgString m s args) (hn : s.length < n) :
    ∃ ps fs, ((backupArgv n args).run ((backupArgc n args).run m).2).1 =
        [.bu, .portnum, .operation] ++ ps.map .field ++ [.null] ∧
      ((backupArgv n args).run ((backupArgc n args).run m).2).1.length =
        ((backupArgc n args).run m).1 + 1 ∧
      List.Forall₂
        (CStringAt ((backupArgv n args).run ((backupArgc n args).run m).2).2) ps fs ∧
      (∀ f ∈ fs, colon ∉ f) ∧
      ([colon].intercalate fs = s ∨ [colon].intercalate fs ++ [colon] = s) := by
  cases args with
  | none =>
      obtain rfl : s = [] := h
      exact ⟨[], [], rfl, rfl, .nil, nofun, .inl rfl⟩
  | some args =>
      obtain ⟨hcount, hb⟩ := run_countArgs 3 h hn
      set m₁ := ((countArgs n 3 args).run m).2 with hm₁
      obtain ⟨hfields, -⟩ := run_fillArgs (m := m₁) (h.of_bytes fun i _ _ => by rw [hb]) hn
      refine ⟨((fillArgs n args).run m₁).1, argFields s, ?_, ?_, ?_,
        fun f hf => colon_not_mem_argFields hf, intercalate_argFields s⟩
      · simp [backupArgv, backupArgc, ← hm₁]
      · simp only [backupArgv, backupArgc, Acc.run_bind, Acc.run_pure, ← hm₁, hcount]
        rw [List.length_append, List.length_append, List.length_map, hfields.length_eq]
        simp
      · simpa [backupArgv, backupArgc, ← hm₁] using hfields

/-- `"a::b:"`, which has the fields `a`, nothing, and `b`. -/
theorem backup_argv_agrees_fields :
    ∃ ps fs, ((backupArgv 6 (some 0)).run
        ((backupArgc 6 (some 0)).run (.ofList [97, 58, 58, 98, 58])).2).1 =
        [.bu, .portnum, .operation] ++ ps.map .field ++ [.null] ∧
      ((backupArgv 6 (some 0)).run
          ((backupArgc 6 (some 0)).run (.ofList [97, 58, 58, 98, 58])).2).1.length =
        ((backupArgc 6 (some 0)).run (.ofList [97, 58, 58, 98, 58])).1 + 1 ∧
      List.Forall₂ (CStringAt ((backupArgv 6 (some 0)).run
        ((backupArgc 6 (some 0)).run (.ofList [97, 58, 58, 98, 58])).2).2) ps fs ∧
      (∀ f ∈ fs, colon ∉ f) ∧
      ([colon].intercalate fs = [97, 58, 58, 98, 58] ∨
        [colon].intercalate fs ++ [colon] = [97, 58, 58, 98, 58]) :=
  backup_argv_agrees (.ofList [97, 58, 58, 98, 58]) [97, 58, 58, 98, 58] (some 0) 6
    ⟨fun i hi => by simp [Buf.ofList, List.getElem?_eq_getElem hi], rfl, by decide⟩ (by decide)

end Adbd
