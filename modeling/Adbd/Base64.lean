import Adbd.JdwpProcess
import Adbd.Sextets

/-!
# Base64

`adb_b64_ntop` and `adb_b64_pton`, which write into a buffer of a given size. The decoder takes
one character after the other and keeps the byte it has begun in the buffer; it skips white
space anywhere, and after the pads it looks at the bits that are left over. Texts are those of
`Adbd.Sextets` over the alphabet of the table.

## Main definitions

* `base64`: the alphabet.
* `adbB64Ntop`, `adbB64Pton`: the functions. `none` is `-1`.
* `Decoding`: the buffer holds the bytes of the characters seen so far.

## Main results

* `b64Ntop_spec`: what the encoder writes, and when it fits.
* `b64Pton_spec`: what the decoder accepts, and what it writes.
* `b64_round_trip`: what was encoded is decoded.
-/

namespace Adbd

open CString Sextets
open Jdwp (isspace)

variable {m m' : Buf} {ds : List Nat} {bs src : List UInt8} {d i n size : Nat} {st : Fin 4}

/-! ### The functions -/

/-- `Base64` and `Pad64`. -/
def base64 : Alphabet UInt8 where
  letters := ascii
    ['A', 'B', 'C', 'D', 'E', 'F', 'G', 'H', 'I', 'J', 'K', 'L', 'M', 'N', 'O', 'P',
     'Q', 'R', 'S', 'T', 'U', 'V', 'W', 'X', 'Y', 'Z', 'a', 'b', 'c', 'd', 'e', 'f',
     'g', 'h', 'i', 'j', 'k', 'l', 'm', 'n', 'o', 'p', 'q', 'r', 's', 't', 'u', 'v',
     'w', 'x', 'y', 'z', '0', '1', '2', '3', '4', '5', '6', '7', '8', '9', '+', '/']
  size := by decide
  nodup := by decide
  pad := 61
  pad_not_mem := by decide

/-- The end of `adb_b64_ntop`: the terminator. -/
def ntopEnd (n size : Nat) : Acc (Option Nat) :=
  if n ≥ size then pure none
  else do
    wr n 0
    pure (some n)

/-- The loop of `adb_b64_ntop`, after `n` characters, and what follows it. -/
def ntopFrom : List UInt8 → Nat → Nat → Acc (Option Nat)
  | a :: b :: c :: src, n, size =>
      if n + 4 > size then pure none
      else do
        wr n (base64.letter (a >>> 2).toNat)
        wr (n + 1) (base64.letter (((a &&& 0x03) <<< 4) + (b >>> 4)).toNat)
        wr (n + 2) (base64.letter (((b &&& 0x0f) <<< 2) + (c >>> 6)).toNat)
        wr (n + 3) (base64.letter (c &&& 0x3f).toNat)
        ntopFrom src (n + 4) size
  | [a, b], n, size =>
      if n + 4 > size then pure none
      else do
        wr n (base64.letter (a >>> 2).toNat)
        wr (n + 1) (base64.letter (((a &&& 0x03) <<< 4) + (b >>> 4)).toNat)
        wr (n + 2) (base64.letter ((b &&& 0x0f) <<< 2).toNat)
        wr (n + 3) base64.pad
        ntopEnd (n + 4) size
  | [a], n, size =>
      if n + 4 > size then pure none
      else do
        wr n (base64.letter (a >>> 2).toNat)
        wr (n + 1) (base64.letter ((a &&& 0x03) <<< 4).toNat)
        wr (n + 2) base64.pad
        wr (n + 3) base64.pad
        ntopEnd (n + 4) size
  | [], n, size => ntopEnd n size

/-- `adb_b64_ntop`. -/
def adbB64Ntop (src : List UInt8) (targsize : Nat) :
    Acc (Option Nat) := ntopFrom src 0 targsize

/-- The `switch` of `adb_b64_pton` on a character with the value `d`: the next state and
`tarindex`. -/
def ptonChar (state : Fin 4) (d tarindex targsize : Nat) : Acc (Option (Fin 4 × Nat)) :=
  match state with
  | 0 =>
      if tarindex ≥ targsize then pure none
      else do
        wr tarindex (UInt8.ofNat (d <<< 2))
        pure (some (1, tarindex))
  | 1 =>
      if tarindex + 1 ≥ targsize then pure none
      else do
        let b ← rd tarindex
        wr tarindex (b ||| UInt8.ofNat (d >>> 4))
        wr (tarindex + 1) (UInt8.ofNat ((d &&& 0x0f) <<< 4))
        pure (some (2, tarindex + 1))
  | 2 =>
      if tarindex + 1 ≥ targsize then pure none
      else do
        let b ← rd tarindex
        wr tarindex (b ||| UInt8.ofNat (d >>> 2))
        wr (tarindex + 1) (UInt8.ofNat ((d &&& 0x03) <<< 6))
        pure (some (3, tarindex + 1))
  | 3 =>
      if tarindex ≥ targsize then pure none
      else do
        let b ← rd tarindex
        wr tarindex (b ||| UInt8.ofNat d)
        pure (some (0, tarindex + 1))

/-- The case of two bytes: nothing but white space may follow, and the bits left over are
zero. -/
def ptonLast (src : List UInt8) (tarindex : Nat) : Acc (Option Nat) :=
  if src.all isspace then do
    let b ← rd tarindex
    pure (if b ≠ 0 then none else some tarindex)
  else pure none

/-- What `adb_b64_pton` does after a pad. -/
def ptonPad (src : List UInt8) (state : Fin 4) (tarindex : Nat) : Acc (Option Nat) :=
  match state with
  | 0 | 1 => pure none
  | 2 =>
      match src.dropWhile isspace with
      | ch :: src => if ch = base64.pad then ptonLast src tarindex else pure none
      | [] => pure none
  | 3 => ptonLast src tarindex

/-- The loop of `adb_b64_pton`, and what follows it. -/
def ptonFrom : List UInt8 → Fin 4 → Nat → Nat → Acc (Option Nat)
  | [], state, tarindex, _ => pure (if state ≠ 0 then none else some tarindex)
  | ch :: src, state, tarindex, targsize =>
      if isspace ch then ptonFrom src state tarindex targsize
      else if ch = base64.pad then ptonPad src state tarindex
      else
        match base64.index ch with
        | none => pure none
        | some d => do
            match ← ptonChar state d tarindex targsize with
            | none => pure none
            | some (state, tarindex) => ptonFrom src state tarindex targsize

/-- `adb_b64_pton` of the string at `src`. -/
def adbB64Pton (src : List UInt8) (targsize : Nat) : Acc (Option Nat) :=
  ptonFrom (cstr src) 0 0 targsize

/-! ### Encoding -/

/-- The four groups of three bytes, as the code computes them. -/
theorem hi_toNat (a : UInt8) : (a >>> 2).toNat = a.toNat / 4 := by
  rw [UInt8.toNat_shiftRight]
  exact Nat.shiftRight_eq_div_pow _ _

theorem low2_toNat (a : UInt8) : ((a &&& 0x03) <<< 4).toNat = a.toNat % 4 * 16 := by
  have hand : (a &&& 0x03).toNat = a.toNat % 4 := by
    rw [UInt8.toNat_and]
    exact Nat.and_two_pow_sub_one_eq_mod _ 2
  rw [UInt8.toNat_shiftLeft, hand, Nat.shiftLeft_eq]
  change a.toNat % 4 * 16 % 256 = _
  omega

theorem low4_toNat (a : UInt8) : ((a &&& 0x0f) <<< 2).toNat = a.toNat % 16 * 4 := by
  have hand : (a &&& 0x0f).toNat = a.toNat % 16 := by
    rw [UInt8.toNat_and]
    exact Nat.and_two_pow_sub_one_eq_mod _ 4
  rw [UInt8.toNat_shiftLeft, hand, Nat.shiftLeft_eq]
  change a.toNat % 16 * 4 % 256 = _
  omega

theorem low6_toNat (a : UInt8) : (a &&& 0x3f).toNat = a.toNat % 64 := by
  rw [UInt8.toNat_and]
  exact Nat.and_two_pow_sub_one_eq_mod _ 6

theorem mid4_toNat (a b : UInt8) :
    (((a &&& 0x03) <<< 4) + (b >>> 4)).toNat = a.toNat % 4 * 16 + b.toNat / 16 := by
  have hb := b.toNat_lt
  have hshift : (b >>> 4).toNat = b.toNat / 16 := by
    rw [UInt8.toNat_shiftRight]
    exact Nat.shiftRight_eq_div_pow _ _
  rw [UInt8.toNat_add, low2_toNat, hshift]
  omega

theorem mid6_toNat (b c : UInt8) :
    (((b &&& 0x0f) <<< 2) + (c >>> 6)).toNat = b.toNat % 16 * 4 + c.toNat / 64 := by
  have hc := c.toNat_lt
  have hshift : (c >>> 6).toNat = c.toNat / 64 := by
    rw [UInt8.toNat_shiftRight]
    exact Nat.shiftRight_eq_div_pow _ _
  rw [UInt8.toNat_add, low4_toNat, hshift]
  omega

/-- The text of three bytes and more. -/
theorem encode_cons (a b c : UInt8) (bs : List UInt8) : base64.encode (a :: b :: c :: bs) =
    [base64.letter (a >>> 2).toNat, base64.letter (((a &&& 0x03) <<< 4) + (b >>> 4)).toNat,
      base64.letter (((b &&& 0x0f) <<< 2) + (c >>> 6)).toNat,
      base64.letter (c &&& 0x3f).toNat] ++ base64.encode bs := by
  have hpads (k : Nat) : base64.pads (k + 4) = base64.pads k := by
    rw [Alphabet.pads, Alphabet.pads]
    congr 1
    omega
  simp only [Alphabet.encode, pack, List.map_cons, List.length_cons, hi_toNat, mid4_toNat,
    mid6_toNat, low6_toNat, hpads, List.cons_append, List.nil_append]

theorem encode_two (a b : UInt8) : base64.encode [a, b] =
    [base64.letter (a >>> 2).toNat, base64.letter (((a &&& 0x03) <<< 4) + (b >>> 4)).toNat,
      base64.letter ((b &&& 0x0f) <<< 2).toNat, base64.pad] := by
  rw [hi_toNat, mid4_toNat, low4_toNat]
  rfl

theorem encode_one (a : UInt8) : base64.encode [a] =
    [base64.letter (a >>> 2).toNat, base64.letter ((a &&& 0x03) <<< 4).toNat, base64.pad,
      base64.pad] := by
  rw [hi_toNat, low2_toNat]
  rfl

/-- **A program that writes a text with its terminator** at `n`, if there is room for it. -/
def Encodes (x : Acc (Option Nat)) (n size : Nat) (text : List UInt8) : Prop :=
  ∀ m, (x.run m).1 = (if n + text.length < size then some (n + text.length) else none) ∧
    Wrote n size m (x.run m).2 ∧
    (n + text.length < size → CString.Holds (x.run m).2 n (text ++ [0]))

theorem encodes_end : Encodes (ntopEnd n size) n size [] := by
  intro m
  rw [ntopEnd, List.length_nil, Nat.add_zero]
  split
  · next h => exact ⟨by rw [if_neg (by omega)]; rfl, .refl m, fun hn => absurd hn (by omega)⟩
  · next h =>
    refine ⟨by rw [if_pos (by omega)]; rfl, Wrote.put (Nat.le_refl _) (by omega),
      fun _ i hi => ?_⟩
    obtain rfl : i = 0 := by simpa using hi
    simp [Buf.put]

/-- Four characters, and what follows them. -/
theorem encodes_four {x : Acc (Option Nat)} {text : List UInt8}
    (h : Encodes x (n + 4) size text)
    (a b c d : UInt8) : Encodes (if n + 4 > size then pure none else do
      wr n a
      wr (n + 1) b
      wr (n + 2) c
      wr (n + 3) d
      x) n size ([a, b, c, d] ++ text) := by
  intro m
  have hlen : n + ([a, b, c, d] ++ text).length = n + 4 + text.length := by
    simp only [List.length_append, List.length_cons, List.length_nil]
    omega
  rw [hlen]
  split
  · next hroom =>
    exact ⟨by rw [if_neg (by omega)]; rfl, .refl m, fun hn => absurd hn (by omega)⟩
  · next hroom =>
    have hrun :
      (do wr n a; wr (n + 1) b; wr (n + 2) c; wr (n + 3) d; x : Acc (Option Nat)).run m =
        x.run ((writeN n [a, b, c, d]).run m).2 := by simp [writeN]
    obtain ⟨hw, hh⟩ := run_writeN n [a, b, c, d] m
    obtain ⟨hres, hw', hh'⟩ := h ((writeN n [a, b, c, d]).run m).2
    rw [hrun]
    refine ⟨hres, (hw.mono (Nat.le_refl _) ?_).trans (hw'.mono (by omega) (Nat.le_refl _)),
      fun hfit => ?_⟩
    · simp only [List.length_cons, List.length_nil]
      omega
    · rw [List.append_assoc]
      exact (hh.wrote hw' (.inl (Nat.le_refl _))).append (hh' hfit)

/-- What `adb_b64_ntop` does after `n` characters. -/
theorem encodes_ntopFrom (bs : List UInt8) (n size : Nat) :
    Encodes (ntopFrom bs n size) n size (base64.encode bs) := by
  induction bs using pack.induct generalizing n with
  | case1 => exact encodes_end
  | case2 a =>
      rw [encode_one]
      exact encodes_four encodes_end _ _ _ _
  | case3 a b =>
      rw [encode_two]
      exact encodes_four encodes_end _ _ _ _
  | case4 a b c bs ih =>
      rw [encode_cons]
      exact encodes_four (ih (n + 4)) _ _ _ _

/-- **What the encoder does**: the text of the bytes with its terminator, if that fits; nothing
is written outside of the buffer. -/
theorem b64Ntop_spec (bs : List UInt8) (size : Nat) :
    Encodes (adbB64Ntop bs size) 0 size (base64.encode bs) :=
  encodes_ntopFrom bs 0 size

/-! ### Decoding -/

/-- **The buffer after the characters of `ds`**: their bytes are there, and the one that was
begun, which is the only one that the next character changes. -/
structure Decoding (m₀ m : Buf) (ds : List Nat) (state : Fin 4) (tarindex size : Nat) :
    Prop where
  lt : ∀ d ∈ ds, d < 64
  state_eq : state.val = ds.length % 4
  index_eq : tarindex = (unpack ds).1.length
  fits : begun ds.length ≤ size
  wrote : Wrote 0 size m₀ m
  bytes : CString.Holds m 0 (unpack ds).1
  left : state ≠ 0 → m.bytes tarindex = UInt8.ofNat (unpack ds).2 ∧ tarindex ∈ m.written

/-- Two bytes that have no bits in common. -/
theorem ofNat_or {k x y : Nat} (hx : x % 2 ^ k = 0) (hy : y < 2 ^ k) :
    UInt8.ofNat x ||| UInt8.ofNat y = UInt8.ofNat (x + y) := by
  rw [← UInt8.ofNat_or]
  obtain ⟨z, rfl⟩ := Nat.dvd_of_mod_eq_zero hx
  rw [Nat.two_pow_add_eq_or_of_lt hy]

/-- A byte that was written is read. -/
theorem Buf.touch_of_mem {j : Nat} (h : j ∈ m.written) : m.touch j = m := by
  rw [Buf.touch, if_pos h]

/-- One more byte. -/
theorem holds_concat {b : UInt8} (h : CString.Holds m 0 bs) (hb : m.bytes bs.length = b) :
    CString.Holds m 0 (bs ++ [b]) := by
  refine h.append fun i hi => ?_
  obtain rfl : i = 0 := by simpa using hi
  simpa using hb

/-- A character that begins a byte. -/
theorem Decoding.begins {m₀ : Buf} (h : Decoding m₀ m ds 0 i size) (hd : d < 64)
    (hroom : i < size) :
    Decoding m₀ (m.put i (UInt8.ofNat (d <<< 2))) (ds ++ [d]) 1 i size := by
  have h0 : ds.length % 4 = 0 := h.state_eq.symm
  have hi := h.index_eq
  have hlen := length_unpack ds
  have hcat : unpack (ds ++ [d]) = ((unpack ds).1, d * 4) := by
    rw [unpack_concat, h0]
    rfl
  have hput : Wrote i size m (m.put i (UInt8.ofNat (d <<< 2))) := .put (Nat.le_refl _) hroom
  refine ⟨lt_concat h.lt hd, ?_, ?_, ?_,
    h.wrote.trans (hput.mono (Nat.zero_le _) (Nat.le_refl _)),
    ?_, fun _ => ⟨?_, by simp [Buf.put]⟩⟩
  · simp only [List.length_append, List.length_singleton, Fin.val_one]
    omega
  · rw [hcat, hi]
  · simp only [List.length_append, List.length_singleton, begun]
    omega
  · rw [hcat]
    exact h.bytes.wrote hput (.inl (by omega))
  · rw [hcat, Nat.shiftLeft_eq]
    simp [Buf.put]

/-- A character that completes a byte with its upper bits `x`, and begins the next one with
`y`. -/
theorem Decoding.goes_on {m₀ : Buf} {k x y : Nat} {st' : Fin 4}
    (h : Decoding m₀ m ds st i size)
    (hd : d < 64) (hst : st ≠ 0) (hst' : st'.val = (ds.length + 1) % 4) (hroom : i + 1 < size)
    (hcat : unpack (ds ++ [d]) = ((unpack ds).1 ++ [UInt8.ofNat ((unpack ds).2 + x)], y))
    (hmod : (unpack ds).2 % 2 ^ k = 0) (hx : x < 2 ^ k) :
    Decoding m₀ (((m.touch i).put i (m.bytes i ||| UInt8.ofNat x)).put (i + 1) (UInt8.ofNat y))
      (ds ++ [d]) st' (i + 1) size := by
  obtain ⟨hleft, hmem⟩ := h.left hst
  have hi := h.index_eq
  have hlen := length_unpack ds
  have hstlen := h.state_eq
  rw [Buf.touch_of_mem hmem, hleft, ofNat_or hmod hx]
  set B := UInt8.ofNat ((unpack ds).2 + x)
  have hput : Wrote i size m ((m.put i B).put (i + 1) (UInt8.ofNat y)) :=
    (Wrote.put (Nat.le_refl _) (by omega)).trans (Wrote.put (by omega) hroom)
  refine ⟨lt_concat h.lt hd, ?_, ?_, ?_,
    h.wrote.trans (hput.mono (Nat.zero_le _) (Nat.le_refl _)),
    ?_, fun _ => ⟨?_, by simp [Buf.put]⟩⟩
  · rw [hst', List.length_append, List.length_singleton]
  · rw [hcat, hi, List.length_append, List.length_singleton]
  · have hne : st.val ≠ 0 := fun h0 => hst (Fin.ext h0)
    simp only [List.length_append, List.length_singleton, begun]
    omega
  · rw [hcat]
    refine holds_concat (h.bytes.wrote hput (.inl (by omega))) ?_
    rw [← hi, Buf.put_bytes_of_ne _ _ (by omega)]
    simp [Buf.put]
  · rw [hcat]
    simp [Buf.put]

/-- A character that completes a byte, and the group of four. -/
theorem Decoding.completes {m₀ : Buf} (h : Decoding m₀ m ds 3 i size) (hd : d < 64)
    (hroom : i < size) :
    Decoding m₀ ((m.touch i).put i (m.bytes i ||| UInt8.ofNat d)) (ds ++ [d]) 0
      (i + 1) size := by
  obtain ⟨hleft, hmem⟩ := h.left (by decide)
  have h3 : ds.length % 4 = 3 := h.state_eq.symm
  have hi := h.index_eq
  have hlen := length_unpack ds
  have hmod := unpack_left_mod ds
  have hcat : unpack (ds ++ [d]) =
      ((unpack ds).1 ++ [UInt8.ofNat ((unpack ds).2 + d)], 0) := by
    rw [unpack_concat, h3]
    rfl
  rw [h3] at hmod
  rw [Buf.touch_of_mem hmem, hleft, ofNat_or (k := 6) hmod hd]
  set B := UInt8.ofNat ((unpack ds).2 + d)
  have hput : Wrote i size m (m.put i B) := .put (Nat.le_refl _) hroom
  refine ⟨lt_concat h.lt hd, ?_, ?_, ?_,
    h.wrote.trans (hput.mono (Nat.zero_le _) (Nat.le_refl _)),
    ?_, fun hne => absurd rfl hne⟩
  · simp only [List.length_append, List.length_singleton, Fin.val_zero]
    omega
  · rw [hcat, hi, List.length_append, List.length_singleton]
  · simp only [List.length_append, List.length_singleton, begun]
    omega
  · rw [hcat]
    refine holds_concat (h.bytes.wrote hput (.inl (by omega))) ?_
    rw [← hi]
    simp [Buf.put]

/-- The states of the decoder. -/
theorem eq_state (st : Fin 4) : st = 0 ∨ st = 1 ∨ st = 2 ∨ st = 3 := by
  revert st
  decide

/-- **What the `switch` does with a character**, if the byte that it begins fits. -/
theorem run_ptonChar {m₀ : Buf} (h : Decoding m₀ m ds st i size) (hd : d < 64)
    (hroom : begun (ds.length + 1) ≤ size) : ∃ st' i' m', (ptonChar st d i size).run m =
      (some (st', i'), m') ∧ Decoding m₀ m' (ds ++ [d]) st' i' size := by
  have hi := h.index_eq
  have hlen := length_unpack ds
  have hmod := unpack_left_mod ds
  simp only [begun] at hroom
  obtain rfl | rfl | rfl | rfl := eq_state st
  · have h0 : ds.length % 4 = 0 := h.state_eq.symm
    have hlt : i < size := by omega
    refine ⟨1, i, _, ?_, h.begins hd hlt⟩
    simp [ptonChar, Nat.not_le.mpr hlt]
  · have h1 : ds.length % 4 = 1 := h.state_eq.symm
    have hlt : i + 1 < size := by omega
    rw [h1] at hmod
    refine ⟨2, i + 1, _, ?_, h.goes_on (k := 2) (x := d >>> 4) (y := (d &&& 0x0f) <<< 4) hd
      (by decide) (by change 2 = _; omega) hlt ?_ hmod ?_⟩
    · simp [ptonChar, Nat.not_le.mpr hlt]
    · rw [unpack_concat, h1, Nat.shiftRight_eq_div_pow, Nat.shiftLeft_eq]
      exact congrArg (Prod.mk _) (congrArg (· * 16) (Nat.and_two_pow_sub_one_eq_mod d 4).symm)
    · rw [Nat.shiftRight_eq_div_pow]
      omega
  · have h2 : ds.length % 4 = 2 := h.state_eq.symm
    have hlt : i + 1 < size := by omega
    rw [h2] at hmod
    refine ⟨3, i + 1, _, ?_, h.goes_on (k := 4) (x := d >>> 2) (y := (d &&& 0x03) <<< 6) hd
      (by decide) (by change 3 = _; omega) hlt ?_ hmod ?_⟩
    · simp [ptonChar, Nat.not_le.mpr hlt]
    · rw [unpack_concat, h2, Nat.shiftRight_eq_div_pow, Nat.shiftLeft_eq]
      exact congrArg (Prod.mk _) (congrArg (· * 64) (Nat.and_two_pow_sub_one_eq_mod d 2).symm)
    · rw [Nat.shiftRight_eq_div_pow]
      omega
  · have h3 : ds.length % 4 = 3 := h.state_eq.symm
    have hlt : i < size := by omega
    refine ⟨0, i + 1, _, ?_, h.completes hd hlt⟩
    simp [ptonChar, Nat.not_le.mpr hlt]

/-- Where that byte does not fit, nothing is written. -/
theorem run_ptonChar_full {m₀ : Buf} (h : Decoding m₀ m ds st i size)
    (hroom : size < begun (ds.length + 1)) : (ptonChar st d i size).run m = (none, m) := by
  have hi := h.index_eq
  have hlen := length_unpack ds
  have hfits := h.fits
  simp only [begun] at hroom hfits
  obtain rfl | rfl | rfl | rfl := eq_state st
  · have h0 : ds.length % 4 = 0 := h.state_eq.symm
    have hge : i ≥ size := by omega
    simp [ptonChar, hge]
  · have h1 : ds.length % 4 = 1 := h.state_eq.symm
    have hge : i + 1 ≥ size := by omega
    simp [ptonChar, hge]
  · have h2 : ds.length % 4 = 2 := h.state_eq.symm
    have hge : i + 1 ≥ size := by omega
    simp [ptonChar, hge]
  · have h3 : ds.length % 4 = 3 := h.state_eq.symm
    exact absurd hroom (by omega)

/-- The characters that are not white space. -/
def visible (src : List UInt8) : List UInt8 := src.filter fun ch => !isspace ch

/-- **What the decoder makes of a text**: its bytes, if there is room for what is begun. -/
structure Decodes (m₀ : Buf) (r : Option Nat × Buf) (v : Option (List UInt8)) (size : Nat) :
    Prop where
  wrote : Wrote 0 size m₀ r.2
  result : ∀ n, r.1 = some n ↔
    ∃ bs, v = some bs ∧ bs.length = n ∧ begun (pack bs).length ≤ size
  bytes : ∀ bs, v = some bs → begun (pack bs).length ≤ size → CString.Holds r.2 0 bs

/-- A failure. -/
theorem Decodes.fails {m₀ : Buf} {v : Option (List UInt8)} (hw : Wrote 0 size m₀ m)
    (h : ∀ bs, v = some bs → size < begun (pack bs).length) : Decodes m₀ (none, m) v size where
  wrote := hw
  result n := by
    constructor
    · intro hn
      cases hn
    · rintro ⟨bs, hv, -, hroom⟩
      exact absurd (h bs hv) (Nat.not_lt.mpr hroom)
  bytes bs hv hroom := absurd (h bs hv) (Nat.not_lt.mpr hroom)

/-- **The end of a text.** -/
theorem Decoding.closes {m₀ : Buf} {v : Option (List UInt8)} (h : Decoding m₀ m ds st i size)
    (hv : ∀ bs, v = some bs ↔ pack bs = ds) (hm' : m'.bytes = m.bytes)
    (hw : Wrote 0 size m₀ m')
    (hr : (unpack ds).2 = 0 ∧ ds.length % 4 ≠ 1) : Decodes m₀ (some i, m') v size := by
  have hp : pack (unpack ds).1 = ds := pack_unpack h.lt hr.1 hr.2
  have huniq (bs : List UInt8) (hbs : v = some bs) : bs = (unpack ds).1 := by
    rw [← (hv bs).mp hbs, unpack_pack]
  refine ⟨hw, fun n => ⟨?_, ?_⟩, fun bs hbs _ => ?_⟩
  · intro hn
    obtain rfl := Option.some.inj hn
    exact ⟨(unpack ds).1, (hv _).mpr hp, h.index_eq.symm, by rw [hp]; exact h.fits⟩
  · rintro ⟨bs, hbs, rfl, -⟩
    rw [huniq bs hbs, h.index_eq]
  · rw [huniq bs hbs]
    intro j hj
    rw [hm']
    exact h.bytes j hj

/-- Nothing but white space is to be seen. -/
theorem visible_eq_nil : visible src = [] ↔ src.all isspace = true := by
  rw [visible, List.filter_eq_nil_iff, List.all_eq_true]
  simp

/-- White space at the front is not seen. -/
theorem visible_dropWhile (src : List UInt8) :
    visible (src.dropWhile isspace) = visible src := by
  induction src with
  | nil => rfl
  | cons ch src ih =>
      by_cases hsp : isspace ch = true
      · rw [List.dropWhile_cons_of_pos hsp, ih]
        exact (List.filter_cons_of_neg (by simp [hsp])).symm
      · rw [List.dropWhile_cons_of_neg hsp]

/-- The end of the text, where only white space may follow. -/
theorem Decoding.last {m₀ : Buf} (h : Decoding m₀ m ds st i size) (hst : st ≠ 0)
    (hlen : ds.length % 4 ≠ 1) : Decodes m₀ ((ptonLast src i).run m)
      (if src.all isspace then Alphabet.close ds else none) size := by
  obtain ⟨hleft, hmem⟩ := h.left hst
  have hzero : m.bytes i = 0 ↔ (unpack ds).2 = 0 := by
    rw [hleft]
    constructor
    · intro h0
      have hlt := unpack_left_lt h.lt
      have hnat := congrArg UInt8.toNat h0
      rw [toNat_ofNat hlt] at hnat
      exact hnat
    · intro h0
      rw [h0]
      rfl
  rw [ptonLast]
  split
  · rw [Acc.run_bind, Acc.run_rd, Buf.touch_of_mem hmem, Acc.run_pure]
    by_cases h0 : m.bytes i = 0
    · rw [if_neg (not_not.mpr h0)]
      exact h.closes (fun bs => Alphabet.close_eq_some h.lt) rfl h.wrote ⟨hzero.mp h0, hlen⟩
    · rw [if_pos h0]
      refine .fails h.wrote fun bs hbs => absurd (hzero.mpr ?_) h0
      rw [← (Alphabet.close_eq_some h.lt).mp hbs, unpack_pack]
  · exact .fails h.wrote fun bs hbs => by cases hbs

/-- What follows a pad. -/
theorem Decoding.padded {m₀ : Buf} (h : Decoding m₀ m ds st i size) :
    Decodes m₀ ((ptonPad src st i).run m)
      (if base64.pad :: visible src = base64.pads ds.length then Alphabet.close ds else none)
      size := by
  match st, h with
  | 0, h =>
      have h0 : ds.length % 4 = 0 := h.state_eq.symm
      have hpads : base64.pads ds.length = [] := by rw [Alphabet.pads, h0]; rfl
      rw [hpads, if_neg (List.cons_ne_nil _ _)]
      exact .fails h.wrote fun bs hbs => by cases hbs
  | 1, h =>
      have h1 : ds.length % 4 = 1 := h.state_eq.symm
      have hclose : Alphabet.close ds = none := if_neg fun hc => hc.1 h1
      rw [hclose, ite_self]
      exact .fails h.wrote fun bs hbs => by cases hbs
  | 2, h =>
      have h2 : ds.length % 4 = 2 := h.state_eq.symm
      have hpads : base64.pads ds.length = [base64.pad, base64.pad] := by
        rw [Alphabet.pads, h2]
        rfl
      have hiff : base64.pad :: visible src = base64.pads ds.length ↔
          visible (src.dropWhile isspace) = [base64.pad] := by
        rw [hpads, visible_dropWhile, List.cons.injEq, eq_self_iff_true, true_and]
      rw [if_congr hiff rfl rfl, ptonPad]
      cases hrest : src.dropWhile isspace with
      | nil => exact .fails h.wrote fun bs hbs => by cases hbs
      | cons ch rest =>
          have hsp : isspace ch = false := by
            have hhead := List.head_dropWhile_not isspace (l := src) (by simp [hrest])
            simpa [hrest] using hhead
          have hvis : visible (ch :: rest) = ch :: visible rest :=
            List.filter_cons_of_pos (by simp [hsp])
          dsimp only
          rw [hvis]
          split
          · next hch =>
            have htail : ch :: visible rest = [base64.pad] ↔ rest.all isspace = true := by
              rw [List.cons.injEq, visible_eq_nil]
              exact and_iff_right hch
            rw [if_congr htail rfl rfl]
            exact h.last (by decide) (by omega)
          · next hch =>
            rw [if_neg fun heq => hch (List.cons.inj heq).1]
            exact .fails h.wrote fun bs hbs => by cases hbs
  | 3, h =>
      have h3 : ds.length % 4 = 3 := h.state_eq.symm
      have hpads : base64.pads ds.length = [base64.pad] := by
        rw [Alphabet.pads, h3]
        rfl
      have hiff : base64.pad :: visible src = base64.pads ds.length ↔
          src.all isspace = true := by
        rw [hpads, List.cons.injEq, eq_self_iff_true, true_and, visible_eq_nil]
      rw [if_congr hiff rfl rfl]
      exact h.last (by decide) (by omega)

/-- **The loop of the decoder** goes on as the decoder of texts does. -/
theorem run_ptonFrom {m₀ : Buf} (src : List UInt8) (h : Decoding m₀ m ds st i size) :
    Decodes m₀ ((ptonFrom src st i size).run m) (base64.decodeFrom ds (visible src)) size := by
  induction src generalizing ds st i m with
  | nil =>
      rw [ptonFrom, show visible [] = [] from rfl, Alphabet.decodeFrom, Acc.run_pure]
      have hst := h.state_eq
      split
      · next hne =>
        have hlen : ds.length % 4 ≠ 0 := fun h0 => hne (Fin.ext (hst.trans h0))
        rw [if_neg hlen]
        exact .fails h.wrote fun bs hbs => by cases hbs
      · next hz =>
        obtain rfl := not_not.mp hz
        have hlen : ds.length % 4 = 0 := hst.symm
        rw [if_pos hlen]
        exact h.closes (fun bs => Alphabet.close_eq_some h.lt) rfl h.wrote
          ⟨unpack_left hlen, by omega⟩
  | cons ch src ih =>
      rw [ptonFrom]
      split
      · next hsp =>
        have hvis : visible (ch :: src) = visible src :=
          List.filter_cons_of_neg (by simp [hsp])
        rw [hvis]
        exact ih h
      · next hsp =>
        have hvis : visible (ch :: src) = ch :: visible src :=
          List.filter_cons_of_pos (by simp [hsp])
        rw [hvis, Alphabet.decodeFrom]
        split
        · next hch =>
          subst hch
          exact h.padded
        · next hch =>
          split
          · next hix =>
            rw [hix]
            exact .fails h.wrote fun bs hbs => by cases hbs
          · next d hix =>
            have hd := (Alphabet.index_eq_some.mp hix).1
            rw [hix, Option.bind_some, Acc.run_bind]
            by_cases hroom : begun (ds.length + 1) ≤ size
            · obtain ⟨st', i', m', hrun, h'⟩ := run_ptonChar h hd hroom
              rw [hrun]
              exact ih h'
            · rw [run_ptonChar_full h (Nat.not_le.mp hroom)]
              refine .fails h.wrote fun bs hbs => ?_
              obtain ⟨es, hp, -⟩ := (Alphabet.decodeFrom_eq_some (lt_concat h.lt hd)).mp hbs
              have hlen : ds.length + 1 ≤ (pack bs).length := by
                rw [hp]
                simp
              exact Nat.lt_of_lt_of_le (Nat.not_le.mp hroom) (begun_mono hlen)

/-- How much room `adb_b64_pton` needs: a byte more if the last group of three is not full. -/
def ptonRoom (bs : List UInt8) : Nat := bs.length + if bs.length % 3 = 0 then 0 else 1

theorem begun_pack (bs : List UInt8) : begun (pack bs).length = ptonRoom bs := by
  rw [length_pack, begun, ptonRoom]
  split <;> omega

/-- **What the decoder does.** It accepts the texts of lists of bytes with white space
anywhere, if there is room for the bytes, and for one more if the last three are not full, and
no other string. It returns the number of the bytes, and they are in the buffer; it writes
nothing outside of the room it was given, and depends on nothing that was there before. -/
theorem b64Pton_spec (src : List UInt8) (size : Nat) (m : Buf) :
    Wrote 0 size m ((adbB64Pton src size).run m).2 ∧
      (∀ n, ((adbB64Pton src size).run m).1 = some n ↔
        ∃ bs, visible (cstr src) = base64.encode bs ∧ bs.length = n ∧ ptonRoom bs ≤ size) ∧
      ∀ bs, visible (cstr src) = base64.encode bs → ptonRoom bs ≤ size →
        CString.Holds ((adbB64Pton src size).run m).2 0 bs := by
  have hstart : Decoding m m [] 0 0 size :=
    ⟨by simp, rfl, rfl, Nat.zero_le _, .refl m, fun i hi => absurd hi (Nat.not_lt_zero i),
      fun h => absurd rfl h⟩
  obtain ⟨hw, hres, hbytes⟩ := run_ptonFrom (cstr src) hstart
  have hdec (bs : List UInt8) : base64.decodeFrom [] (visible (cstr src)) = some bs ↔
      visible (cstr src) = base64.encode bs := Alphabet.decode_eq_some_iff
  simp only [hdec, begun_pack] at hres hbytes
  exact ⟨hw, hres, hbytes⟩

/-- The characters of a text are neither white space nor zero. -/
theorem encode_visible (bs : List UInt8) :
    ∀ ch ∈ base64.encode bs, isspace ch = false ∧ ch ≠ 0 := by
  have hletters : ∀ ch ∈ base64.letters, isspace ch = false ∧ ch ≠ 0 := by decide +kernel
  intro ch hch
  rcases Alphabet.mem_encode hch with h | rfl
  · exact hletters ch h
  · decide

/-- The first bytes of a buffer, as a list. -/
def contents (m : Buf) (size : Nat) : List UInt8 := (List.range size).map m.bytes

/-- A string in a buffer. -/
theorem cstr_contents (h : CString.Holds m 0 (bs ++ [0])) (h0 : 0 ∉ bs)
    (hsize : bs.length < size) :
    cstr (contents m size) = bs := by
  have hsplit : contents m size =
      bs ++ 0 :: (List.range' (bs.length + 1) (size - (bs.length + 1))).map m.bytes := by
    refine List.ext_getElem ?_ fun j hj hj' => ?_
    · simp [contents]
      omega
    · have hbyte : (contents m size)[j] = m.bytes j := by simp [contents]
      rw [hbyte]
      rcases Nat.lt_trichotomy j bs.length with hlt | rfl | hgt
      · have hb := h j (by simp; omega)
        rw [Nat.zero_add] at hb
        rw [hb, List.getElem_append_left hlt, List.getElem_append_left hlt]
      · have hb := h bs.length (by simp)
        rw [Nat.zero_add] at hb
        simp [hb]
      · obtain ⟨k, rfl⟩ := Nat.exists_eq_add_of_lt hgt
        rw [List.getElem_append_right (by omega), List.getElem_cons]
        rw [dif_neg (by omega), List.getElem_map, List.getElem_range']
        congr 1
        omega
  rw [hsplit, cstr, List.takeWhile_append_of_pos fun b hb => by
    have hne : b ≠ 0 := fun h => h0 (h ▸ hb)
    simpa using hne]
  simp

/-- **What was encoded is decoded.** -/
theorem b64_round_trip (bs : List UInt8) {size size' : Nat}
    (h : (bs.length + 2) / 3 * 4 < size) (h' : ptonRoom bs ≤ size') (m m' : Buf) :
    ((adbB64Ntop bs size).run m).1 = some ((bs.length + 2) / 3 * 4) ∧
      ((adbB64Pton (contents ((adbB64Ntop bs size).run m).2 size) size').run m').1 =
        some bs.length ∧
      CString.Holds
        ((adbB64Pton (contents ((adbB64Ntop bs size).run m).2 size) size').run m').2 0 bs := by
  obtain ⟨hres, -, hholds⟩ := b64Ntop_spec bs size m
  rw [Nat.zero_add, Alphabet.length_encode] at hres hholds
  rw [if_pos h] at hres
  have hvis : visible (base64.encode bs) = base64.encode bs :=
    List.filter_eq_self.mpr fun ch hch => by simp [(encode_visible bs ch hch).1]
  have hstr : cstr (contents ((adbB64Ntop bs size).run m).2 size) = base64.encode bs :=
    cstr_contents (hholds h) (fun h0 => (encode_visible bs 0 h0).2 rfl)
      (by rw [Alphabet.length_encode]; exact h)
  obtain ⟨-, hpton, hbytes⟩ :=
    b64Pton_spec (contents ((adbB64Ntop bs size).run m).2 size) size' m'
  rw [hstr, hvis] at hpton hbytes
  exact ⟨hres, (hpton _).mpr ⟨bs, rfl, rfl, h'⟩, hbytes bs rfl h'⟩

/-- Two bytes, in a buffer of five and back into one of three. -/
theorem b64_round_trip_two :
    ((adbB64Pton (contents ((adbB64Ntop [72, 105] 5).run (Buf.ofList [])).2 5) 3).run
      (Buf.ofList [])).1 = some 2 :=
  (b64_round_trip [72, 105] (by decide) (by decide) (Buf.ofList []) (Buf.ofList [])).2.1

end Adbd
