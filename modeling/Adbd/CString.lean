import Mathlib.Logic.Function.Basic
import Mathlib.Tactic.Common

/-!
# C Strings in a Buffer

Programs that read and write single bytes of a buffer, with a record of what they do: which
offsets they wrote, and which they read without having written them before. The functions
of `string.h` are such programs. Nothing here refers to a particular program.

A buffer is a byte for every offset. What a list does not reach is zero, so that a string
in a buffer given by a list ends with the list at the latest.

## Main definitions

* `Acc α`: programs that access a buffer and return an `α`.
* `Buf`: a buffer with its record; `Acc.run`: running a program on it.
* `strchr`, `strtokR`, `strcmpEq`, `strdup`, `readN`: the functions of `string.h`, and a
  loop over a number of bytes.
* `offsets`: where a byte is in a string.
* `Acc.Within k x Q`: on a buffer with a zero at `k`, the program `x` stays at or below `k`.

## Main results

* `Acc.run_agree`: a program that only reads below `n` does not see what is there beyond.
* `Within.bind`, `Within.rd`, `Within.wr`: the rules for `Within`.
* `Within.strchr`, `Within.strtokR`, ...: the functions stay within the string.
* `strchr_value`, `strdup_string`: what they find in a string.
* `strchr_reaches`, `strtokR_reaches`: without a zero they go on to what is behind it.
-/

namespace CString

variable {α β : Type}

/-- Programs that access a buffer. -/
inductive Acc (α : Type) : Type
  | ret (a : α)
  | rd (i : Nat) (k : UInt8 → Acc α)
  | wr (i : Nat) (b : UInt8) (k : Acc α)

namespace Acc

/-- Sequencing. -/
def bind : Acc α → (α → Acc β) → Acc β
  | ret a, f => f a
  | rd i k, f => rd i fun b => bind (k b) f
  | wr i b k, f => wr i b (bind k f)

instance : Monad Acc where
  pure := ret
  bind := bind

end Acc

/-- Read one byte. -/
def rd (i : Nat) : Acc UInt8 := .rd i .ret

/-- Write one byte. -/
def wr (i : Nat) (b : UInt8) : Acc Unit := .wr i b (.ret ())

/-- A buffer, the offsets that were written, and those that were read and not written
before. -/
structure Buf where
  bytes : Nat → UInt8
  written : List Nat := []
  touched : List Nat := []

namespace Buf

/-- A buffer that holds a list. -/
def ofList (data : List UInt8) : Buf := { bytes := fun i => data.getD i 0 }

/-- The record of reading `i`. -/
def touch (m : Buf) (i : Nat) : Buf :=
  if i ∈ m.written then m else { m with touched := i :: m.touched }

/-- Writing a byte. -/
def put (m : Buf) (i : Nat) (b : UInt8) : Buf :=
  { m with bytes := Function.update m.bytes i b, written := i :: m.written }

@[simp] theorem touch_bytes (m : Buf) (i : Nat) : (m.touch i).bytes = m.bytes := by
  unfold touch
  split <;> rfl

@[simp] theorem touch_written (m : Buf) (i : Nat) : (m.touch i).written = m.written := by
  unfold touch
  split <;> rfl

@[simp] theorem put_touched (m : Buf) (i : Nat) (b : UInt8) :
    (m.put i b).touched = m.touched :=
  rfl

theorem put_bytes_of_ne (m : Buf) {i j : Nat} (b : UInt8) (h : j ≠ i) :
    (m.put i b).bytes j = m.bytes j := by
  simp [put, h]

theorem mem_touch {m : Buf} {i j : Nat} :
    j ∈ (m.touch i).touched ↔ j ∈ m.touched ∨ j = i ∧ i ∉ m.written := by
  unfold touch
  split
  · next h => simp [h]
  · next h => simp [h, or_comm]

end Buf

namespace Acc

/-- Run a program. -/
def run : Acc α → Buf → α × Buf
  | ret a, m => (a, m)
  | rd i k, m => run (k (m.bytes i)) (m.touch i)
  | wr i b k, m => run k (m.put i b)

@[simp] theorem run_pure (a : α) (m : Buf) : run (pure a : Acc α) m = (a, m) := rfl

@[simp] theorem run_bind (x : Acc α) (f : α → Acc β) (m : Buf) :
    run (x >>= f) m = run (f (run x m).1) (run x m).2 := by
  induction x generalizing m with
  | ret a => rfl
  | rd i k ih => exact ih _ _
  | wr i b k ih => exact ih _

@[simp] theorem run_rd (i : Nat) (m : Buf) :
    run (CString.rd i) m = (m.bytes i, m.touch i) := rfl

@[simp] theorem run_wr (i : Nat) (b : UInt8) (m : Buf) :
    run (CString.wr i b) m = ((), m.put i b) := rfl

/-- What was read stays on record. -/
theorem touched_mono (x : Acc α) {m : Buf} {i : Nat} (h : i ∈ m.touched) :
    i ∈ (run x m).2.touched := by
  induction x generalizing m with
  | ret a => exact h
  | rd j k ih => exact ih _ (Buf.mem_touch.mpr (.inl h))
  | wr j b k ih => exact ih h

/-- What was written before is not recorded as read. -/
theorem not_written_of_touched (x : Acc α) {m : Buf} {i : Nat}
    (h : i ∈ (run x m).2.touched) : i ∈ m.touched ∨ i ∉ m.written := by
  induction x generalizing m with
  | ret a => exact .inl h
  | rd j k ih =>
      obtain h | h := ih _ h
      · obtain h | ⟨rfl, h⟩ := Buf.mem_touch.mp h
        · exact .inl h
        · exact .inr h
      · exact .inr (by simpa using h)
  | wr j b k ih =>
      obtain h | h := ih h
      · exact .inl h
      · exact .inr fun hw => h (List.mem_cons_of_mem _ hw)

/-! ### What a program depends on -/

/-- Two buffers with the same record that agree below `n` and where they were written. -/
structure Agree (n : Nat) (m m' : Buf) : Prop where
  written : m'.written = m.written
  touched : m'.touched = m.touched
  bytes : ∀ i, i < n ∨ i ∈ m.written → m'.bytes i = m.bytes i

/-- **A program that only reads below `n` does not see what is there beyond.** -/
theorem run_agree (x : Acc α) {n : Nat} {m m' : Buf} (hm : Agree n m m')
    (h : ∀ i ∈ (run x m).2.touched, i < n) :
    (run x m').1 = (run x m).1 ∧ Agree n (run x m).2 (run x m').2 := by
  induction x generalizing m m' with
  | ret a => exact ⟨rfl, hm⟩
  | rd i k ih =>
      have hi : i < n ∨ i ∈ m.written := by
        by_cases hw : i ∈ m.written
        · exact .inr hw
        · exact .inl (h i (touched_mono (k (m.bytes i)) (Buf.mem_touch.mpr (.inr ⟨rfl, hw⟩))))
      have hag : Agree n (m.touch i) (m'.touch i) := by
        refine ⟨by simp [hm.written], ?_, fun j hj => ?_⟩
        · simp only [Buf.touch, hm.written]
          split <;> simp [hm.touched]
        · simpa using hm.bytes j (by simpa using hj)
      simp only [run, hm.bytes i hi] at h ⊢
      exact ih _ hag h
  | wr i b k ih =>
      refine ih ⟨?_, hm.touched, fun j hj => ?_⟩ h
      · simp [Buf.put, hm.written]
      · by_cases hji : j = i
        · simp [Buf.put, hji]
        · have hj' : j < n ∨ j ∈ m.written := by
            simpa [Buf.put, hji] using hj
          simpa [Buf.put, hji] using hm.bytes j hj'

end Acc

/-! ### The functions -/

/-- `strchr` from the offset `i`, over at most `n` bytes. -/
def strchr (ch : UInt8) : Nat → Nat → Acc (Option Nat)
  | 0, _ => pure none
  | n + 1, i => do
      let b ← rd i
      if b = ch then pure (some i)
      else if b = 0 then pure none
      else strchr ch n (i + 1)

/-- The start of a token: separators are skipped. -/
def skipSep (sep : UInt8) : Nat → Nat → Acc Nat
  | 0, i => pure i
  | n + 1, i => do
      let b ← rd i
      if b = sep then skipSep sep n (i + 1) else pure i

/-- The end of a token: the next separator or the end of the string. -/
def tokenEnd (sep : UInt8) : Nat → Nat → Acc Nat
  | 0, i => pure i
  | n + 1, i => do
      let b ← rd i
      if b = sep then pure i
      else if b = 0 then pure i
      else tokenEnd sep n (i + 1)

/-- `strtok_r` with one separator, over at most `n` bytes: the offsets of the token and of
what is left of the string. A separator behind the token is overwritten. -/
def strtokR (sep : UInt8) (n : Nat) (s : Nat) : Acc (Option (Nat × Nat)) := do
  let i ← skipSep sep n s
  let b ← rd i
  if b = 0 then pure none
  else do
    let e ← tokenEnd sep n i
    let c ← rd e
    if c = 0 then pure (some (i, e))
    else do
      wr e 0
      pure (some (i, e + 1))

/-- Whether the string at `i` is the given one: `!strcmp`. -/
def strcmpEq : List UInt8 → Nat → Acc Bool
  | [], i => do
      let b ← rd i
      pure (b = 0)
  | l :: ls, i => do
      let b ← rd i
      if b = l then strcmpEq ls (i + 1) else pure false

/-- The string at `i`, of at most `n` bytes: what `strdup` copies. -/
def strdup : Nat → Nat → Acc (List UInt8)
  | 0, _ => pure []
  | n + 1, i => do
      let b ← rd i
      if b = 0 then pure []
      else do
        let bs ← strdup n (i + 1)
        pure (b :: bs)

/-- The `n` bytes from the offset `i` on. -/
def readN : Nat → Nat → Acc (List UInt8)
  | 0, _ => pure []
  | n + 1, i => do
      let b ← rd i
      let bs ← readN n (i + 1)
      pure (b :: bs)

/-! ### Staying within a string -/

/-- From `m` to `m'` only bytes at or below `k` were read, and only bytes below it were
written; the zero at `k` is still there. -/
structure Stays (k : Nat) (m m' : Buf) : Prop where
  zero : m'.bytes k = 0
  frame : ∀ j, k < j → m'.bytes j = m.bytes j
  written : ∀ i ∈ m'.written, i ∈ m.written ∨ i < k
  touched : ∀ i ∈ m'.touched, i ∈ m.touched ∨ i ≤ k

theorem Stays.refl {k : Nat} {m : Buf} (h : m.bytes k = 0) : Stays k m m :=
  ⟨h, fun _ _ => rfl, fun _ => .inl, fun _ => .inl⟩

theorem Stays.trans {k : Nat} {m m' m'' : Buf} (h : Stays k m m') (h' : Stays k m' m'') :
    Stays k m m'' := by
  refine ⟨h'.zero, fun j hj => (h'.frame j hj).trans (h.frame j hj), fun i hi => ?_,
    fun i hi => ?_⟩
  · obtain hi | hi := h'.written i hi
    · exact h.written i hi
    · exact .inr hi
  · obtain hi | hi := h'.touched i hi
    · exact h.touched i hi
    · exact .inr hi

/-- **On a buffer with a zero at `k` the program stays at or below `k`**, and returns a value
with `Q`. -/
def Within (k : Nat) (x : Acc α) (Q : α → Prop) : Prop :=
  ∀ m : Buf, m.bytes k = 0 → Stays k m (x.run m).2 ∧ Q (x.run m).1

namespace Within

variable {k n i : Nat} {x : Acc α} {f : α → Acc β} {Q Q' : α → Prop} {R : β → Prop}
    {ch sep : UInt8}

theorem pure {a : α} (h : Q a) : Within k (Pure.pure a) Q := fun _ hm => ⟨.refl hm, h⟩

theorem mono (h : Within k x Q) (hQ : ∀ a, Q a → Q' a) : Within k x Q' :=
  fun m hm => ⟨(h m hm).1, hQ _ (h m hm).2⟩

/-- Sequencing. -/
theorem bind (h : Within k x Q) (hf : ∀ a, Q a → Within k (f a) R) : Within k (x >>= f) R := by
  intro m hm
  obtain ⟨hs, hq⟩ := h m hm
  obtain ⟨hs', hr⟩ := hf _ hq _ hs.zero
  rw [Acc.run_bind]
  exact ⟨hs.trans hs', hr⟩

/-- Reading; a byte other than zero is not the last one. -/
theorem rd (hi : i ≤ k) : Within k (CString.rd i) fun b => b ≠ 0 → i < k := by
  intro m hm
  rw [Acc.run_rd]
  refine ⟨⟨by simpa using hm, by simp, fun j hj => .inl (by simpa using hj), fun j hj => ?_⟩,
    fun hb => ?_⟩
  · obtain hj | ⟨rfl, -⟩ := Buf.mem_touch.mp hj
    · exact .inl hj
    · exact .inr hi
  · exact Nat.lt_of_le_of_ne hi fun hik => hb (hik ▸ hm)

/-- Writing in front of the last byte. -/
theorem wr {b : UInt8} (hi : i < k) : Within k (CString.wr i b) fun _ => True := by
  intro m hm
  rw [Acc.run_wr]
  refine ⟨⟨?_, fun j hj => ?_, fun j hj => ?_, fun j hj => .inl hj⟩, trivial⟩
  · simpa [Buf.put, Nat.ne_of_gt hi] using hm
  · simp [Buf.put, Nat.ne_of_gt (Nat.lt_trans hi hj)]
  · obtain rfl | hj := List.mem_cons.mp hj
    · exact .inr hi
    · exact .inl hj

/-- What `strchr` finds is in front of the end. -/
theorem strchr (hch : ch ≠ 0) (hi : i ≤ k) :
    Within k (strchr ch n i) fun r => ∀ j, r = some j → i ≤ j ∧ j < k := by
  induction n generalizing i with
  | zero => exact pure fun j hj => by cases hj
  | succ n ih =>
      refine bind (rd hi) fun b hb => ?_
      split
      · next hbc =>
        refine pure fun j hj => ?_
        obtain rfl := Option.some.inj hj
        exact ⟨Nat.le_refl _, hb (hbc ▸ hch)⟩
      split
      · exact pure fun j hj => by cases hj
      · next hb0 =>
        refine (ih (hb hb0)).mono fun r hr j hj => ?_
        exact ⟨Nat.le_of_succ_le (hr j hj).1, (hr j hj).2⟩

theorem skipSep (hsep : sep ≠ 0) (hi : i ≤ k) :
    Within k (skipSep sep n i) fun j => i ≤ j ∧ j ≤ k := by
  induction n generalizing i with
  | zero => exact pure ⟨Nat.le_refl _, hi⟩
  | succ n ih =>
      refine bind (rd hi) fun b hb => ?_
      split
      · next hbs => exact (ih (hb (hbs ▸ hsep))).mono fun j hj =>
          ⟨Nat.le_of_succ_le hj.1, hj.2⟩
      · exact pure ⟨Nat.le_refl _, hi⟩

theorem tokenEnd (hi : i ≤ k) : Within k (tokenEnd sep n i) fun j => i ≤ j ∧ j ≤ k := by
  induction n generalizing i with
  | zero => exact pure ⟨Nat.le_refl _, hi⟩
  | succ n ih =>
      refine bind (rd hi) fun b hb => ?_
      split
      · exact pure ⟨Nat.le_refl _, hi⟩
      split
      · exact pure ⟨Nat.le_refl _, hi⟩
      · next hb0 => exact (ih (hb hb0)).mono fun j hj => ⟨Nat.le_of_succ_le hj.1, hj.2⟩

/-- The token and the rest are in the string. -/
theorem strtokR (hsep : sep ≠ 0) (hi : i ≤ k) :
    Within k (strtokR sep n i) fun r => ∀ a e, r = some (a, e) → a ≤ k ∧ e ≤ k := by
  refine bind (skipSep hsep hi) fun a ha => ?_
  refine bind (rd ha.2) fun b hb => ?_
  split
  · exact pure fun _ _ h => by cases h
  · refine bind (tokenEnd ha.2) fun e he => ?_
    refine bind (rd he.2) fun c hc => ?_
    split
    · refine pure fun a' e' h => ?_
      obtain ⟨rfl, rfl⟩ := Prod.mk.inj (Option.some.inj h)
      exact ⟨ha.2, he.2⟩
    · next hc0 =>
      refine bind (wr (hc hc0)) fun _ _ => pure fun a' e' h => ?_
      obtain ⟨rfl, rfl⟩ := Prod.mk.inj (Option.some.inj h)
      exact ⟨ha.2, hc hc0⟩

/-- Comparing with a string reads up to the first difference. -/
theorem strcmpEq {l : List UInt8} (hl : 0 ∉ l) (hi : i ≤ k) :
    Within k (strcmpEq l i) fun _ => True := by
  induction l generalizing i with
  | nil => exact bind (rd hi) fun _ _ => pure trivial
  | cons b l ih =>
      refine bind (rd hi) fun c hc => ?_
      split
      · next hcb =>
        have hb : c ≠ 0 := fun h0 => hl (by simp [← hcb, h0])
        exact ih (fun h => hl (List.mem_cons_of_mem _ h)) (hc hb)
      · exact pure trivial

theorem strdup (hi : i ≤ k) : Within k (strdup n i) fun _ => True := by
  induction n generalizing i with
  | zero => exact pure trivial
  | succ n ih =>
      refine bind (rd hi) fun b hb => ?_
      split
      · exact pure trivial
      · next hb0 => exact bind (ih (hb hb0)) fun _ _ => pure trivial

end Within

/-! ### Leaving a string that does not end -/

section Reaches

variable {ch sep : UInt8} {n i fuel : Nat} {m : Buf}

/-- There is no zero from `i` up to `n`. -/
def Unended (m : Buf) (i n : Nat) : Prop := ∀ j, i ≤ j → j < n → m.bytes j ≠ 0

theorem Unended.touch (h : Unended m i n) : Unended (m.touch i) (i + 1) n := by
  intro j hj hjn
  rw [Buf.touch_bytes]
  exact h j (Nat.le_of_succ_le hj) hjn

/-- Reading `n` is recorded unless it was written. -/
theorem mem_touch_self (hw : n ∉ m.written) : n ∈ (m.touch n).touched :=
  Buf.mem_touch.mpr (.inr ⟨rfl, hw⟩)

/-- `strchr` does not write. -/
theorem strchr_frame (ch : UInt8) (fuel i : Nat) (m : Buf) :
    ((strchr ch fuel i).run m).2.bytes = m.bytes ∧
    ((strchr ch fuel i).run m).2.written = m.written := by
  induction fuel generalizing i m with
  | zero => exact ⟨rfl, rfl⟩
  | succ fuel ih =>
      rw [strchr, Acc.run_bind, Acc.run_rd]
      dsimp only
      split
      · simp
      split
      · simp
      · simpa using ih (i + 1) (m.touch i)

theorem skipSep_frame (sep : UInt8) (fuel i : Nat) (m : Buf) :
    ((skipSep sep fuel i).run m).2.bytes = m.bytes ∧
    ((skipSep sep fuel i).run m).2.written = m.written := by
  induction fuel generalizing i m with
  | zero => exact ⟨rfl, rfl⟩
  | succ fuel ih =>
      rw [skipSep, Acc.run_bind, Acc.run_rd]
      dsimp only
      split
      · simpa using ih (i + 1) (m.touch i)
      · simp

theorem tokenEnd_frame (sep : UInt8) (fuel i : Nat) (m : Buf) :
    ((tokenEnd sep fuel i).run m).2.bytes = m.bytes ∧
    ((tokenEnd sep fuel i).run m).2.written = m.written := by
  induction fuel generalizing i m with
  | zero => exact ⟨rfl, rfl⟩
  | succ fuel ih =>
      rw [tokenEnd, Acc.run_bind, Acc.run_rd]
      dsimp only
      split
      · simp
      split
      · simp
      · simpa using ih (i + 1) (m.touch i)

/-- Without a zero in front of `n`, `strchr` finds its character there or reads `n`. -/
theorem strchr_reaches (ch : UInt8) (fuel : Nat) (hi : i ≤ n) (hf : n < i + fuel)
    (hm : Unended m i n) (hw : n ∉ m.written) : n ∈ ((strchr ch fuel i).run m).2.touched ∨
      ∃ j, ((strchr ch fuel i).run m).1 = some j ∧ i ≤ j ∧ j < n := by
  induction fuel generalizing i m with
  | zero => exact absurd hf (by omega)
  | succ fuel ih =>
      obtain rfl | hin := Nat.eq_or_lt_of_le hi
      · left
        rw [strchr, Acc.run_bind, Acc.run_rd]
        exact Acc.touched_mono _ (mem_touch_self hw)
      · have hb := hm i (Nat.le_refl _) hin
        rw [strchr, Acc.run_bind, Acc.run_rd]
        dsimp only
        by_cases hc : m.bytes i = ch
        · rw [if_pos hc]
          exact .inr ⟨i, rfl, Nat.le_refl _, hin⟩
        · rw [if_neg hc, if_neg hb]
          obtain h | ⟨j, hj, hij, hjn⟩ := ih hin (by omega) hm.touch (by simpa using hw)
          · exact .inl h
          · exact .inr ⟨j, hj, Nat.le_of_succ_le hij, hjn⟩

/-- Without a zero in front of `n`, `skipSep` stops there or reads `n`. -/
theorem skipSep_reaches (sep : UInt8) (fuel : Nat) (hi : i ≤ n) (hf : n < i + fuel)
    (hm : Unended m i n) (hw : n ∉ m.written) : n ∈ ((skipSep sep fuel i).run m).2.touched ∨
      i ≤ ((skipSep sep fuel i).run m).1 ∧ ((skipSep sep fuel i).run m).1 < n := by
  induction fuel generalizing i m with
  | zero => exact absurd hf (by omega)
  | succ fuel ih =>
      obtain rfl | hin := Nat.eq_or_lt_of_le hi
      · left
        rw [skipSep, Acc.run_bind, Acc.run_rd]
        exact Acc.touched_mono _ (mem_touch_self hw)
      · rw [skipSep, Acc.run_bind, Acc.run_rd]
        dsimp only
        split
        · obtain h | ⟨hij, hjn⟩ := ih hin (by omega) hm.touch (by simpa using hw)
          · exact .inl h
          · exact .inr ⟨Nat.le_of_succ_le hij, hjn⟩
        · exact .inr ⟨Nat.le_refl _, hin⟩

/-- Without a zero in front of `n`, a token ends there or `n` is read. -/
theorem tokenEnd_reaches (sep : UInt8) (fuel : Nat) (hi : i ≤ n) (hf : n < i + fuel)
    (hm : Unended m i n) (hw : n ∉ m.written) : n ∈ ((tokenEnd sep fuel i).run m).2.touched ∨
      i ≤ ((tokenEnd sep fuel i).run m).1 ∧ ((tokenEnd sep fuel i).run m).1 < n := by
  induction fuel generalizing i m with
  | zero => exact absurd hf (by omega)
  | succ fuel ih =>
      obtain rfl | hin := Nat.eq_or_lt_of_le hi
      · left
        rw [tokenEnd, Acc.run_bind, Acc.run_rd]
        exact Acc.touched_mono _ (mem_touch_self hw)
      · have hb := hm i (Nat.le_refl _) hin
        rw [tokenEnd, Acc.run_bind, Acc.run_rd]
        dsimp only
        by_cases hc : m.bytes i = sep
        · rw [if_pos hc]
          exact .inr ⟨Nat.le_refl _, hin⟩
        · rw [if_neg hc, if_neg hb]
          obtain h | ⟨hij, hjn⟩ := ih hin (by omega) hm.touch (by simpa using hw)
          · exact .inl h
          · exact .inr ⟨Nat.le_of_succ_le hij, hjn⟩

/-- Without a zero in front of `n`, `strtok_r` finds a token there, puts a zero at its end
and leaves the rest alone, or reads `n`. -/
theorem strtokR_reaches (sep : UInt8) (fuel : Nat) (hi : i ≤ n) (hf : n < i + fuel)
    (hm : Unended m i n) (hw : n ∉ m.written) : n ∈ ((strtokR sep fuel i).run m).2.touched ∨
      ∃ a e, ((strtokR sep fuel i).run m).1 = some (a, e + 1) ∧ i ≤ a ∧ a ≤ e ∧ e < n ∧
        ((strtokR sep fuel i).run m).2.bytes = Function.update m.bytes e 0 ∧
        ((strtokR sep fuel i).run m).2.written = e :: m.written := by
  rw [strtokR, Acc.run_bind]
  have hskip := skipSep_frame sep fuel i m
  obtain h | ⟨hia, han⟩ := skipSep_reaches sep fuel hi hf hm hw
  · exact .inl (Acc.touched_mono _ h)
  generalize (skipSep sep fuel i).run m = r at hskip hia han ⊢
  obtain ⟨a, m₁⟩ := r
  dsimp only at hskip hia han ⊢
  rw [Acc.run_bind, Acc.run_rd]
  dsimp only
  have ha : m₁.bytes a ≠ 0 := by rw [hskip.1]; exact hm a hia han
  rw [if_neg ha, Acc.run_bind]
  have hm₁ : Unended (m₁.touch a) a n := by
    intro j hj hjn
    rw [Buf.touch_bytes, hskip.1]
    exact hm j (Nat.le_trans hia hj) hjn
  have hw₁ : n ∉ (m₁.touch a).written := by rw [Buf.touch_written, hskip.2]; exact hw
  have hend := tokenEnd_frame sep fuel a (m₁.touch a)
  obtain h | ⟨hae, hen⟩ := tokenEnd_reaches sep fuel (Nat.le_of_lt han) (by omega)
    hm₁ hw₁
  · exact .inl (Acc.touched_mono _ h)
  generalize (tokenEnd sep fuel a).run (m₁.touch a) = r at hend hae hen ⊢
  obtain ⟨e, m₂⟩ := r
  dsimp only at hend hae hen ⊢
  rw [Acc.run_bind, Acc.run_rd]
  dsimp only
  have hbytes : m₂.bytes = m.bytes := by rw [hend.1, Buf.touch_bytes, hskip.1]
  have hwritten : m₂.written = m.written := by rw [hend.2, Buf.touch_written, hskip.2]
  have he : m₂.bytes e ≠ 0 := by rw [hbytes]; exact hm e (Nat.le_trans hia hae) hen
  rw [if_neg he]
  exact .inr ⟨a, e, rfl, hia, hae, hen, by simp [Buf.put, hbytes], by simp [Buf.put, hwritten]⟩

end Reaches

/-! ### The values read -/

section Values

variable {data : List UInt8} {n i fuel : Nat} {m : Buf}

/-- `readN` reads the bytes it is asked for. -/
theorem readN_touched {j : Nat} (h : j ∈ ((readN n i).run m).2.touched) :
    j ∈ m.touched ∨ j < i + n := by
  induction n generalizing i m with
  | zero => exact .inl h
  | succ n ih =>
      rw [readN, Acc.run_bind, Acc.run_rd, Acc.run_bind] at h
      obtain h | h := ih h
      · obtain h | ⟨rfl, -⟩ := Buf.mem_touch.mp h
        · exact .inl h
        · exact .inr (by omega)
      · exact .inr (by omega)

/-- `readN` returns the bytes it is asked for. -/
theorem readN_value (hm : m.bytes = (Buf.ofList data).bytes) (h : i + n ≤ data.length) :
    ((readN n i).run m).1 = (data.drop i).take n := by
  induction n generalizing i m with
  | zero => simp [readN]
  | succ n ih =>
      have hi : i < data.length := by omega
      rw [readN, Acc.run_bind, Acc.run_rd, Acc.run_bind]
      simp only [Acc.run_pure]
      rw [ih (by simpa using hm) (by omega), hm, List.drop_eq_getElem_cons hi,
        List.take_succ_cons]
      simp [Buf.ofList, hi]

/-- `strdup` returns the string. -/
theorem strdup_value (hm : m.bytes = (Buf.ofList data).bytes) (h : data.length < i + fuel) :
    ((strdup fuel i).run m).1 = (data.drop i).takeWhile (· ≠ 0) := by
  induction fuel generalizing i m with
  | zero => simp [strdup, List.drop_eq_nil_of_le (by omega : data.length ≤ i)]
  | succ fuel ih =>
      rw [strdup, Acc.run_bind, Acc.run_rd, hm]
      by_cases hi : i < data.length
      · rw [List.drop_eq_getElem_cons hi]
        have hb : (Buf.ofList data).bytes i = data[i] := by simp [Buf.ofList, hi]
        dsimp only
        rw [hb]
        by_cases h0 : data[i] = 0
        · simp [h0]
        · rw [if_neg h0, Acc.run_bind, List.takeWhile_cons_of_pos (by simpa using h0)]
          simp only [Acc.run_pure]
          rw [ih (by simpa using hm) (by omega)]
      · have hb : (Buf.ofList data).bytes i = 0 := by simp [Buf.ofList, hi]
        simp [hb, List.drop_eq_nil_of_le (by omega : data.length ≤ i)]

end Values

/-! ### Writing text -/

section Writing

variable {lo hi p size : Nat} {m m' m'' : Buf} {bs cs : List UInt8}

/-- Write the bytes of a list from the offset `p` on. -/
def writeN : Nat → List UInt8 → Acc Unit
  | _, [] => pure ()
  | p, b :: bs => do
      wr p b
      writeN (p + 1) bs

/-- `snprintf(p, size, ..)`, where `bs` is the text of the format: what fits is written with a
terminator, and the length of the whole text is returned. -/
def snprintf (p size : Nat) (bs : List UInt8) : Acc Nat :=
  if size = 0 then pure bs.length
  else do
    writeN p (bs.take (size - 1))
    wr (p + min bs.length (size - 1)) 0
    pure bs.length

/-- From `m` to `m'` nothing was read, and only bytes from `lo` up to `hi` were written. -/
structure Wrote (lo hi : Nat) (m m' : Buf) : Prop where
  frame : ∀ i, i < lo ∨ hi ≤ i → m'.bytes i = m.bytes i
  written : ∀ i ∈ m'.written, i ∈ m.written ∨ lo ≤ i ∧ i < hi
  touched : m'.touched = m.touched

theorem Wrote.refl (m : Buf) : Wrote lo hi m m := ⟨fun _ _ => rfl, fun _ => .inl, rfl⟩

theorem Wrote.trans (h : Wrote lo hi m m') (h' : Wrote lo hi m' m'') : Wrote lo hi m m'' := by
  refine ⟨fun i hi => (h'.frame i hi).trans (h.frame i hi), fun i hi => ?_,
    h'.touched.trans h.touched⟩
  rcases h'.written i hi with hi | hi
  · exact h.written i hi
  · exact .inr hi

theorem Wrote.mono {lo' hi' : Nat} (h : Wrote lo hi m m') (hlo : lo' ≤ lo) (hhi : hi ≤ hi') :
    Wrote lo' hi' m m' := by
  refine ⟨fun i hi => h.frame i (by omega), fun i hi => ?_, h.touched⟩
  exact (h.written i hi).imp_right fun hi => by omega

theorem Wrote.put {b : UInt8} (hlo : lo ≤ p) (hhi : p < hi) : Wrote lo hi m (m.put p b) := by
  refine ⟨fun i hi => Buf.put_bytes_of_ne m b (by omega), fun i hi => ?_, rfl⟩
  rcases List.mem_cons.mp hi with rfl | hi
  · exact .inr ⟨hlo, hhi⟩
  · exact .inl hi

/-- The buffer holds the text `bs` at `p`. -/
def Holds (m : Buf) (p : Nat) (bs : List UInt8) : Prop :=
  ∀ i, (hi : i < bs.length) → m.bytes (p + i) = bs[i]

theorem Holds.append (h : Holds m p bs) (h' : Holds m (p + bs.length) cs) :
    Holds m p (bs ++ cs) := by
  intro i hi
  by_cases hb : i < bs.length
  · rw [h i hb, List.getElem_append_left hb]
  · have hi' : i - bs.length < cs.length := by
      rw [List.length_append] at hi
      omega
    rw [List.getElem_append_right (Nat.not_lt.mp hb), ← h' _ hi']
    congr 1
    omega

/-- What is written elsewhere leaves a text alone. -/
theorem Holds.wrote (h : Holds m p bs) (hw : Wrote lo hi m m')
    (hout : p + bs.length ≤ lo ∨ hi ≤ p) : Holds m' p bs := by
  intro i hi
  rw [hw.frame (p + i) (by omega)]
  exact h i hi

theorem run_writeN (p : Nat) (bs : List UInt8) (m : Buf) :
    Wrote p (p + bs.length) m ((writeN p bs).run m).2 ∧
    Holds ((writeN p bs).run m).2 p bs := by
  induction bs generalizing p m with
  | nil => exact ⟨.refl m, nofun⟩
  | cons b bs ih =>
      obtain ⟨hw, hh⟩ := ih (p := p + 1) (m := m.put p b)
      have hput : Wrote p (p + (b :: bs).length) m (m.put p b) :=
        .put (Nat.le_refl _) (by simp)
      refine ⟨hput.trans (hw.mono (Nat.le_succ p) (by simp; omega)), fun i hi => ?_⟩
      cases i with
      | zero => exact (hw.frame p (.inl (Nat.lt_succ_self p))).trans (by simp [Buf.put])
      | succ i =>
          have hi' : i < bs.length := by simpa using hi
          have := hh i hi'
          rwa [Nat.add_right_comm] at this

/-- **`snprintf` stays in its room**, and a text that fits is there with its terminator. -/
theorem run_snprintf (p : Nat) (bs : List UInt8) (m : Buf) (hsize : 0 < size) :
    ((snprintf p size bs).run m).1 = bs.length ∧
      Wrote p (p + size) m ((snprintf p size bs).run m).2 ∧
      (bs.length < size → Holds ((snprintf p size bs).run m).2 p bs ∧
        ((snprintf p size bs).run m).2.bytes (p + bs.length) = 0) := by
  rw [snprintf, if_neg (Nat.ne_of_gt hsize)]
  simp only [Acc.run_bind, Acc.run_wr, Acc.run_pure, true_and]
  obtain ⟨hw, hh⟩ := run_writeN p (bs.take (size - 1)) m
  set m₁ := ((writeN p (bs.take (size - 1))).run m).2
  have hput : Wrote p (p + size) m₁ (m₁.put (p + min bs.length (size - 1)) 0) :=
    Wrote.put (by omega) (by omega)
  refine ⟨(hw.mono (Nat.le_refl _) (by rw [List.length_take]; omega)).trans hput,
    fun hfit => ?_⟩
  have hall : bs.take (size - 1) = bs := List.take_of_length_le (by omega)
  have hend : min bs.length (size - 1) = bs.length := by omega
  rw [hall] at hh
  rw [hend]
  refine ⟨fun i hi => ?_, by simp [Buf.put]⟩
  rw [Buf.put_bytes_of_ne _ _ (by omega)]
  exact hh i hi

end Writing

/-! ### A string -/

/-- Where a byte is in a string, from an offset on. -/
def offsets (ch : UInt8) (s : List UInt8) (i : Nat) : List Nat :=
  (List.range' i (s.length - i)).filter fun k => s.getD k 0 = ch

section Strings

variable {ch : UInt8} {s : List UInt8} {i j n p : Nat} {js : List Nat} {m : Buf}

theorem mem_offsets : j ∈ offsets ch s i ↔ i ≤ j ∧ j < s.length ∧ s.getD j 0 = ch := by
  rw [offsets, List.mem_filter, List.mem_range'_1, decide_eq_true_eq]
  constructor
  · rintro ⟨⟨hij, hj⟩, hch⟩
    exact ⟨hij, by omega, hch⟩
  · rintro ⟨hij, hj, hch⟩
    exact ⟨⟨hij, by omega⟩, hch⟩

theorem offsets_end (hi : s.length ≤ i) : offsets ch s i = [] := by
  rw [offsets, Nat.sub_eq_zero_of_le hi]
  rfl

/-- The byte at the offset itself, and behind it. -/
theorem offsets_step (hi : i < s.length) :
    offsets ch s i =
      if s.getD i 0 = ch then i :: offsets ch s (i + 1) else offsets ch s (i + 1) := by
  have hlen : s.length - i = s.length - (i + 1) + 1 := by omega
  rw [offsets, hlen, List.range'_succ, List.filter_cons]
  simp only [decide_eq_true_eq]
  rfl

/-- Behind the first one are the others. -/
theorem offsets_tail (h : offsets ch s i = j :: js) :
    i ≤ j ∧ j < s.length ∧ s.getD j 0 = ch ∧ js = offsets ch s (j + 1) := by
  induction hk : s.length - i generalizing i with
  | zero =>
      rw [offsets_end (by omega)] at h
      exact nomatch h
  | succ k ih =>
      have hi : i < s.length := by omega
      rw [offsets_step hi] at h
      split at h
      · next hch =>
        obtain ⟨rfl, rfl⟩ := List.cons.inj h
        exact ⟨Nat.le_refl _, hi, hch, rfl⟩
      · obtain ⟨hij, hrest⟩ := ih h (by omega)
        exact ⟨Nat.le_of_succ_le hij, hrest⟩

/-- `strchr` finds the first one. -/
theorem strchr_value (hs : Holds m p s) (hzero : m.bytes (p + s.length) = 0) (hnz : 0 ∉ s)
    (hch : ch ≠ 0) (hi : i ≤ s.length) (hn : s.length < i + n) :
    ((strchr ch n (p + i)).run m).1 = (offsets ch s i).head?.map (p + ·) := by
  induction n generalizing i m with
  | zero => exact absurd hn (Nat.not_lt.mpr hi)
  | succ n ih =>
      rw [strchr, Acc.run_bind, Acc.run_rd]
      dsimp only
      rcases Nat.eq_or_lt_of_le hi with rfl | hlt
      · rw [hzero, if_neg (Ne.symm hch), if_pos rfl, offsets_end (Nat.le_refl _)]
        rfl
      · have hb : m.bytes (p + i) = s[i] := hs i hlt
        have hget : s.getD i 0 = s[i] := by simp [hlt]
        rw [hb, offsets_step hlt, hget]
        by_cases hslash : s[i] = ch
        · rw [if_pos hslash, if_pos hslash]
          rfl
        · have hne : s[i] ≠ 0 := fun h0 => hnz (h0 ▸ List.getElem_mem hlt)
          rw [if_neg hslash, if_neg hne, if_neg hslash, Nat.add_assoc]
          refine ih (fun k hk => ?_) ?_ hlt (by omega)
          · rw [Buf.touch_bytes]
            exact hs k hk
          · rw [Buf.touch_bytes]
            exact hzero

/-- `strdup` does not write. -/
theorem strdup_frame (n p : Nat) (m : Buf) : ((strdup n p).run m).2.bytes = m.bytes := by
  induction n generalizing p m with
  | zero => rfl
  | succ n ih =>
      rw [strdup, Acc.run_bind, Acc.run_rd]
      dsimp only
      split
      · exact Buf.touch_bytes ..
      · rw [Acc.run_bind, Acc.run_pure, ih, Buf.touch_bytes]

/-- The string that `strdup` copies. -/
theorem strdup_string (hs : Holds m p s) (hzero : m.bytes (p + s.length) = 0) (hnz : 0 ∉ s)
    (hn : s.length < n) : ((strdup n p).run m).1 = s := by
  induction n generalizing p m s with
  | zero => exact absurd hn (Nat.not_lt_zero _)
  | succ n ih =>
      rw [strdup, Acc.run_bind, Acc.run_rd]
      dsimp only
      cases s with
      | nil =>
          rw [if_pos (by simpa using hzero)]
          rfl
      | cons b s =>
          have hb : m.bytes p = b := hs 0 (Nat.succ_pos _)
          rw [List.mem_cons, not_or] at hnz
          rw [hb, if_neg (Ne.symm hnz.1), Acc.run_bind, Acc.run_pure]
          refine congrArg (b :: ·) (ih (fun k hk => ?_) ?_ hnz.2 (Nat.lt_of_succ_lt_succ hn))
          · have := hs (k + 1) (Nat.succ_lt_succ hk)
            rwa [Buf.touch_bytes, Nat.add_right_comm]
          · rw [Buf.touch_bytes, Nat.add_right_comm]
            exact hzero

end Strings

end CString
