import Adbd.BackupArgs

/-!
# Strings Cut into Tokens

`strchr`, `strcmp` and `strtok_r` on a string in memory, in terms of the list of its bytes:
what they return, which strings are in memory afterwards, and that the rest of the memory is as
it was.

## Main definitions

* `tokens`: the pieces of a string between separators, without the empty ones.
* `Yields`: what is computed without writing.

## Main results

* `CStringAt.run_strchr`, `CStringAt.run_strcmpEq`: the byte found, the strings compared.
* `CStringAt.run_strtokR`: the first of the tokens, and what the others are taken from.
-/

namespace Adbd

open CString

variable {sep ch : UInt8} {s f rest l : List UInt8} {m : Buf} {n p : Nat}

/-! ### Tokens -/

/-- The pieces of a string between separators, without the empty ones. -/
def tokens (sep : UInt8) (s : List UInt8) :
    List (List UInt8) := (s.splitOn sep).filter (· ≠ [])

@[simp] theorem tokens_nil : tokens sep [] = [] := rfl

/-- A token, and the separator behind it. -/
theorem tokens_cut (hf : sep ∉ f) :
    tokens sep (f ++ sep :: rest) = if f = [] then tokens sep rest else f ::
      tokens sep rest := by
  rw [tokens, List.splitOn_append_cons_self_of_not_mem hf, List.filter_cons]
  by_cases hnil : f = [] <;> simp [hnil, tokens]

/-- The last token. -/
theorem tokens_last (hs : sep ∉ s) (hne : s ≠ []) : tokens sep s = [s] := by
  rw [tokens, List.splitOn_eq_singleton hs, List.filter_cons_of_pos (by simpa using hne)]
  rfl

/-- Separators in front do not matter. -/
theorem tokens_replicate (k : Nat) :
    tokens sep (List.replicate k sep ++ s) = tokens sep s := by
  induction k with
  | zero => rfl
  | succ k ih =>
      rw [List.replicate_succ, List.cons_append, ← ih]
      exact (tokens_cut (f := []) List.not_mem_nil).trans (if_pos rfl)

/-- A string is its separators in front, and the rest. -/
theorem exists_replicate (sep : UInt8) (s : List UInt8) :
    ∃ k s', s = List.replicate k sep ++ s' ∧ s'.head? ≠ some sep := by
  induction s with
  | nil => exact ⟨0, [], rfl, by simp⟩
  | cons b s ih =>
      by_cases hb : b = sep
      · obtain ⟨k, s', rfl, hs'⟩ := ih
        exact ⟨k + 1, s', by rw [hb, List.replicate_succ, List.cons_append], hs'⟩
      · exact ⟨0, b :: s, rfl, by simpa using hb⟩

/-! ### Strings in memory -/

theorem holds_cons {b : UInt8} : CString.Holds m p (b :: s) ↔
    m.bytes p = b ∧ CString.Holds m (p + 1) s := by
  constructor
  · intro h
    refine ⟨h 0 (Nat.succ_pos _), fun i hi => ?_⟩
    rw [Nat.add_right_comm]
    exact h (i + 1) (Nat.succ_lt_succ hi)
  · rintro ⟨hb, h⟩ i hi
    cases i with
    | zero => exact hb
    | succ i =>
        have hi' := h i (Nat.lt_of_succ_lt_succ hi)
        rwa [Nat.add_right_comm] at hi'

theorem holds_of_bytes {m' : Buf} (h : CString.Holds m p s) (hb : m'.bytes = m.bytes) :
    CString.Holds m' p s := fun i hi => by rw [hb]; exact h i hi

/-- A string is its first part, and the string behind it. -/
theorem CStringAt.append_iff : CStringAt m p (f ++ s) ↔
    CString.Holds m p f ∧ 0 ∉ f ∧ CStringAt m (p + f.length) s := by
  constructor
  · intro h
    have hnz := h.nonzero
    rw [List.mem_append, not_or] at hnz
    have hzero := h.zero
    rw [List.length_append, ← Nat.add_assoc] at hzero
    refine ⟨fun i hi => ?_, hnz.1, fun i hi => ?_, hzero, hnz.2⟩
    · rw [h.holds i (by rw [List.length_append]; omega), List.getElem_append_left hi]
    · have hget := h.holds (f.length + i) (by rw [List.length_append]; omega)
      rw [List.getElem_append_right (by omega)] at hget
      simpa [Nat.add_assoc] using hget
  · rintro ⟨hf, h0, h⟩
    refine ⟨hf.append h.holds, ?_, ?_⟩
    · rw [List.length_append, ← Nat.add_assoc]
      exact h.zero
    · rw [List.mem_append, not_or]
      exact ⟨h0, h.nonzero⟩

/-- A string cut at one of its bytes is two strings. -/
theorem CStringAt.cut {b : UInt8} (h : CStringAt m p (f ++ b :: rest)) :
    CStringAt (m.put (p + f.length) 0) p f ∧
      CStringAt (m.put (p + f.length) 0) (p + f.length + 1) rest := by
  obtain ⟨hf, h0, hb⟩ := CStringAt.append_iff.mp h
  obtain ⟨-, -, hrest⟩ := (CStringAt.append_iff (f := [b])).mp hb
  refine ⟨⟨fun i hi => ?_, by simp [Buf.put], h0⟩, hrest.of_bytes fun i hi _ => ?_⟩
  · rw [Buf.put_bytes_of_ne _ _ (by omega)]
    exact hf i hi
  · rw [List.length_singleton] at hi
    exact Buf.put_bytes_of_ne _ _ (by omega)

/-- A search goes over the bytes it does not look for. -/
theorem strchr_stop (hf : ch ∉ f) (h0 : 0 ∉ f) (hm : CString.Holds m p f) (hn : f.length < n)
    (hstop : m.bytes (p + f.length) = ch ∨ m.bytes (p + f.length) = 0) :
    ((strchr ch n p).run m).1 =
      if m.bytes (p + f.length) = ch then some (p + f.length) else none := by
  induction f generalizing n m p with
  | nil =>
      cases n with
      | zero => exact absurd hn (Nat.lt_irrefl 0)
      | succ n =>
          simp only [List.length_nil, Nat.add_zero] at hstop ⊢
          rw [strchr, Acc.run_bind, Acc.run_rd]
          dsimp only
          by_cases hch : m.bytes p = ch
          · rw [if_pos hch, if_pos hch]
            rfl
          · rw [if_neg hch, if_neg hch, if_pos (hstop.resolve_left hch)]
            rfl
  | cons b f ih =>
      cases n with
      | zero => exact absurd hn (Nat.not_lt_zero _)
      | succ n =>
          obtain ⟨hb, hm⟩ := holds_cons.mp hm
          rw [List.mem_cons, not_or] at hf h0
          have hnext : p + (b :: f).length = p + 1 + f.length := by
            rw [List.length_cons]
            omega
          rw [hnext] at hstop ⊢
          rw [strchr, Acc.run_bind, Acc.run_rd]
          dsimp only
          rw [hb, if_neg (Ne.symm hf.1), if_neg (Ne.symm h0.1),
            ih hf.2 h0.2 (holds_of_bytes hm (Buf.touch_bytes ..)) (Nat.lt_of_succ_lt_succ hn)
              (by rwa [Buf.touch_bytes]), Buf.touch_bytes]

/-- **What `strchr` finds in a string**: the first such byte, if there is one. -/
theorem CStringAt.run_strchr (h : CStringAt m p s) (ch : UInt8) (hch : ch ≠ 0)
    (hn : s.length < n) :
    (ch ∉ s ∧ ((strchr ch n p).run m).1 = none) ∨ ∃ f rest, s = f ++ ch :: rest ∧ ch ∉ f ∧
      ((strchr ch n p).run m).1 = some (p + f.length) := by
  by_cases hs : ch ∈ s
  · obtain ⟨f, rest, rfl, hf⟩ := List.eq_append_cons_of_mem hs
    obtain ⟨hm, h0, hrest⟩ := CStringAt.append_iff.mp h
    have hstop : m.bytes (p + f.length) = ch := (holds_cons.mp hrest.holds).1
    refine .inr ⟨f, rest, rfl, hf, ?_⟩
    rw [strchr_stop hf h0 hm (by rw [List.length_append] at hn; omega) (.inl hstop),
      if_pos hstop]
  · refine .inl ⟨hs, ?_⟩
    rw [strchr_stop hs h.nonzero h.holds hn (.inr h.zero), h.zero, if_neg (Ne.symm hch)]

/-- A comparison does not write. -/
theorem strcmpEq_frame (l : List UInt8) (p : Nat) (m : Buf) :
    ((strcmpEq l p).run m).2.bytes = m.bytes := by
  induction l generalizing p m with
  | nil =>
      rw [strcmpEq, Acc.run_bind, Acc.run_rd]
      exact Buf.touch_bytes ..
  | cons b l ih =>
      rw [strcmpEq, Acc.run_bind, Acc.run_rd]
      dsimp only
      split
      · rw [ih, Buf.touch_bytes]
      · exact Buf.touch_bytes ..

/-- **`strcmp` compares the strings.** -/
theorem CStringAt.run_strcmpEq (h : CStringAt m p s) (hl : 0 ∉ l) :
    ((strcmpEq l p).run m).1 = decide (s = l) := by
  induction l generalizing s p m with
  | nil =>
      rw [strcmpEq, Acc.run_bind, Acc.run_rd, Acc.run_pure]
      exact decide_eq_decide.mpr h.nil_iff
  | cons b l ih =>
      rw [List.mem_cons, not_or] at hl
      rw [strcmpEq, Acc.run_bind, Acc.run_rd]
      dsimp only
      cases s with
      | nil =>
          have h0 : m.bytes p = 0 := h.nil_iff.mpr rfl
          rw [h0, if_neg hl.1]
          rfl
      | cons b' s =>
          obtain ⟨hb, -, hrest⟩ := (CStringAt.append_iff (f := [b'])).mp h
          obtain ⟨hb, -⟩ := holds_cons.mp hb
          rw [hb]
          by_cases heq : b' = b
          · have hrest' : CStringAt (m.touch p) (p + 1) s :=
              hrest.of_bytes fun i _ _ => by rw [Buf.touch_bytes]
            rw [if_pos heq, ih hrest' hl.2]
            simp [heq]
          · rw [if_neg heq]
            simp [heq]

/-- On a memory with these bytes, `x` returns `v` and writes nothing. -/
def Yields {α : Type} (m : Buf) (x : Acc α) (v : α) : Prop :=
  ∀ m' : Buf, m'.bytes = m.bytes → (x.run m').1 = v ∧ (x.run m').2.bytes = m.bytes

theorem Yields.pure {α : Type} (v : α) : Yields m (pure v : Acc α) v := fun _ h => ⟨rfl, h⟩

/-- Two branches, for a string that is the given one and for others. -/
theorem CStringAt.yields_ifEq {α : Type} {A B : Acc α} {a b : α} (h : CStringAt m p s)
    (hl : 0 ∉ l) (hA : Yields m A a) (hB : Yields m B b) :
    Yields m (strcmpEq l p >>= fun t => if t = true then A else B)
      (if s = l then a else b) := by
  intro m' hm'
  have h' : CStringAt m' p s := h.of_bytes fun i _ _ => by rw [hm']
  have hframe : ((strcmpEq l p).run m').2.bytes = m.bytes := (strcmpEq_frame l p m').trans hm'
  rw [Acc.run_bind, h'.run_strcmpEq hl]
  by_cases hs : s = l
  · rw [decide_eq_true hs, if_pos rfl, if_pos hs]
    exact hA _ hframe
  · rw [decide_eq_false hs, if_neg Bool.false_ne_true, if_neg hs]
    exact hB _ hframe

/-- A token ends with the separator behind it, or with the string. -/
theorem tokenEnd_stop (hf : sep ∉ f) (h0 : 0 ∉ f) (hm : CString.Holds m p f)
    (hn : f.length < n) (hstop : m.bytes (p + f.length) = sep ∨ m.bytes (p + f.length) = 0) :
    ((tokenEnd sep n p).run m).1 = p + f.length := by
  induction f generalizing n m p with
  | nil =>
      cases n with
      | zero => exact absurd hn (Nat.lt_irrefl 0)
      | succ n =>
          simp only [List.length_nil, Nat.add_zero] at hstop ⊢
          rw [tokenEnd, Acc.run_bind, Acc.run_rd]
          dsimp only
          split
          · rfl
          · next hne =>
            rw [if_pos (hstop.resolve_left hne)]
            rfl
  | cons b f ih =>
      cases n with
      | zero => exact absurd hn (Nat.not_lt_zero _)
      | succ n =>
          obtain ⟨hb, hm⟩ := holds_cons.mp hm
          rw [List.mem_cons, not_or] at hf h0
          have hnext : p + (b :: f).length = p + 1 + f.length := by
            rw [List.length_cons]
            omega
          rw [hnext] at hstop ⊢
          rw [tokenEnd, Acc.run_bind, Acc.run_rd]
          dsimp only
          rw [hb, if_neg (Ne.symm hf.1), if_neg (Ne.symm h0.1)]
          exact ih hf.2 h0.2 (holds_of_bytes hm (Buf.touch_bytes ..))
            (Nat.lt_of_succ_lt_succ hn)
            (by rwa [Buf.touch_bytes])

/-- Separators are skipped. -/
theorem run_skipSep {k : Nat} (hm : CString.Holds m p (List.replicate k sep))
    (hstop : m.bytes (p + k) ≠ sep) (hn : k < n) : ((skipSep sep n p).run m).1 = p + k := by
  induction k generalizing n m p with
  | zero =>
      cases n with
      | zero => exact absurd hn (Nat.lt_irrefl 0)
      | succ n =>
          rw [Nat.add_zero] at hstop
          rw [skipSep, Acc.run_bind, Acc.run_rd]
          dsimp only
          rw [if_neg hstop]
          rfl
  | succ k ih =>
      cases n with
      | zero => exact absurd hn (Nat.not_lt_zero _)
      | succ n =>
          obtain ⟨hb, hm⟩ := holds_cons.mp (List.replicate_succ ▸ hm)
          rw [skipSep, Acc.run_bind, Acc.run_rd]
          dsimp only
          rw [← Nat.add_assoc, Nat.add_right_comm] at hstop
          rw [if_pos hb, ih (holds_of_bytes hm (Buf.touch_bytes ..))
            (by rwa [Buf.touch_bytes]) (Nat.lt_of_succ_lt_succ hn)]
          omega

/-- The end of the first piece of a string. -/
theorem CStringAt.run_tokenEnd_of (h : CStringAt m p s) (sep : UInt8) (hn : s.length < n) :
    (sep ∉ s ∧ ((tokenEnd sep n p).run m).1 = p + s.length) ∨ ∃ f rest, s = f ++ sep :: rest ∧
      sep ∉ f ∧ ((tokenEnd sep n p).run m).1 = p + f.length := by
  by_cases hs : sep ∈ s
  · obtain ⟨f, rest, rfl, hf⟩ := List.eq_append_cons_of_mem hs
    obtain ⟨hm, h0, hrest⟩ := CStringAt.append_iff.mp h
    exact .inr ⟨f, rest, rfl, hf, tokenEnd_stop hf h0 hm
      (by rw [List.length_append] at hn; omega) (.inl (holds_cons.mp hrest.holds).1)⟩
  · exact .inl ⟨hs, tokenEnd_stop hs h.nonzero h.holds hn (.inr h.zero)⟩

/-- What `strtok_r` leaves of the tokens of the string at `p`. -/
structure Tokenized (sep : UInt8) (m : Buf) (p : Nat) (s : List UInt8)
    (r : Option (Nat × Nat) × Buf) : Prop where
  frame : ∀ j < p, r.2.bytes j = m.bytes j
  none : r.1 = none → tokens sep s = []
  some : ∀ i save, r.1 = some (i, save) → ∃ tok rest, tokens sep s = tok :: tokens sep rest ∧
    CStringAt r.2 i tok ∧ CStringAt r.2 save rest ∧ p ≤ i ∧ i + tok.length ≤ save ∧
    tok.length ≤ s.length ∧ rest.length < s.length

/-- **The first token of a string**, and the string that the others are in. -/
theorem CStringAt.run_strtokR (h : CStringAt m p s) (sep : UInt8) (hsep : sep ≠ 0)
    (hn : s.length < n) : Tokenized sep m p s ((strtokR sep n p).run m) := by
  obtain ⟨k, s', rfl, hs'⟩ := exists_replicate sep s
  rw [List.length_append, List.length_replicate] at hn
  obtain ⟨hseps, -, hrest⟩ := CStringAt.append_iff.mp h
  rw [List.length_replicate] at hrest
  have hstop : m.bytes (p + k) ≠ sep := by
    cases s' with
    | nil => rw [hrest.nil_iff.mpr rfl]; exact Ne.symm hsep
    | cons b s' =>
        rw [(holds_cons.mp hrest.holds).1]
        exact fun hb => hs' (congrArg some hb)
  have hskip := run_skipSep (n := n) hseps hstop (by omega)
  have hframe := skipSep_frame sep n p m
  rw [strtokR, Acc.run_bind]
  generalize (skipSep sep n p).run m = r at hskip hframe ⊢
  obtain ⟨i, m₁⟩ := r
  dsimp only at hskip hframe ⊢
  subst hskip
  rw [Acc.run_bind, Acc.run_rd]
  dsimp only
  have hb₁ : (m₁.touch (p + k)).bytes = m.bytes := by rw [Buf.touch_bytes, hframe.1]
  have hstr : CStringAt (m₁.touch (p + k)) (p + k) s' :=
    hrest.of_bytes fun i _ _ => by rw [hb₁]
  rw [show m₁.bytes = m.bytes from hframe.1]
  generalize m₁.touch (p + k) = m₂ at hb₁ hstr ⊢
  have htokens : tokens sep (List.replicate k sep ++ s') = tokens sep s' := tokens_replicate k
  by_cases hnil : s' = []
  · rw [if_pos (hrest.nil_iff.mpr hnil)]
    subst hnil
    exact ⟨fun _ _ => by rw [← hb₁]; rfl, fun _ => htokens, fun _ _ h => by cases h⟩
  rw [if_neg fun h0 => hnil (hrest.nil_iff.mp h0), Acc.run_bind]
  have hend := hstr.run_tokenEnd_of (n := n) sep (by omega)
  have hframe₂ := (tokenEnd_frame sep n (p + k) m₂).1
  generalize (tokenEnd sep n (p + k)).run m₂ = r at hend hframe₂ ⊢
  obtain ⟨e, m₃⟩ := r
  dsimp only at hend hframe₂ ⊢
  rw [Acc.run_bind, Acc.run_rd]
  dsimp only
  have hb₄ : (m₃.touch e).bytes = m.bytes := by rw [Buf.touch_bytes, hframe₂, hb₁]
  have hb₃ : m₃.bytes = m.bytes := by rw [hframe₂, hb₁]
  rw [hb₃]
  generalize m₃.touch e = m₄ at hb₄ ⊢
  have hstr₄ : CStringAt m₄ (p + k) s' := hrest.of_bytes fun i _ _ => by rw [hb₄]
  obtain ⟨hlast, rfl⟩ | ⟨f, rest, rfl, hf, rfl⟩ := hend
  · rw [if_pos hrest.zero]
    refine ⟨fun _ _ => by rw [← hb₄]; rfl, (fun h => by cases h), fun i save h => ?_⟩
    obtain ⟨rfl, rfl⟩ := Prod.mk.inj (Option.some.inj h)
    refine ⟨s', [], htokens.trans (tokens_last hlast hnil), hstr₄, hstr₄.ended rfl, by omega,
      Nat.le_refl _, ?_, ?_⟩
    · rw [List.length_append]
      omega
    · rw [List.length_append]
      exact Nat.lt_of_lt_of_le (List.length_pos_iff.mpr hnil) (Nat.le_add_left _ _)
  · have hsepb : m.bytes (p + k + f.length) = sep :=
      (holds_cons.mp (CStringAt.append_iff.mp hrest).2.2.holds).1
    have hne : f ≠ [] := by
      rintro rfl
      exact hs' rfl
    rw [if_neg (by rw [hsepb]; exact hsep)]
    refine ⟨fun j hj => ?_, (fun h => by cases h), fun i save h => ?_⟩
    · rw [← hb₄]
      exact Buf.put_bytes_of_ne _ _ (by omega)
    obtain ⟨rfl, rfl⟩ := Prod.mk.inj (Option.some.inj h)
    obtain ⟨htok, hleft⟩ := hstr₄.cut
    refine ⟨f, rest, htokens.trans ((tokens_cut hf).trans (if_neg hne)), htok, hleft, by omega,
      by omega, ?_, ?_⟩ <;> simp only [List.length_append, List.length_cons] <;> omega

end Adbd
