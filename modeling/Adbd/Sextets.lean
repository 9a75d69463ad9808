import Mathlib.Algebra.Ring.Nat
import Mathlib.Data.List.GetD
import Mathlib.Data.List.Nodup
import Mathlib.Tactic.Common

/-!
# Bytes in Groups of Six Bits

Bytes as groups of six bits, three bytes for four groups, and a text that spells the groups in
an alphabet of 64 letters and is filled up with pads to a multiple of four. A last group that
is not full is filled with zeros, so that a list of bytes has one text only, and the decoder of
this module accepts no other. Nothing here refers to a particular program.

## Main definitions

* `pack`, `unpack`: bytes to groups and back, with what is left over.
* `Alphabet`: 64 letters and a pad.
* `Alphabet.encode`, `Alphabet.decode`: texts.

## Main results

* `unpack_pack`, `pack_unpack`: the two are inverse where nothing is left over.
* `unpack_concat`: what one more group does.
* `Alphabet.decode_eq_some_iff`: the decoder accepts the texts of lists of bytes, and no
  others.
-/

namespace Sextets

/-! ### Groups -/

/-- The groups of a list of bytes, from the most significant bits on. -/
def pack : List UInt8 → List Nat
  | [] => []
  | [a] => [a.toNat / 4, a.toNat % 4 * 16]
  | [a, b] => [a.toNat / 4, a.toNat % 4 * 16 + b.toNat / 16, b.toNat % 16 * 4]
  | a :: b :: c :: l =>
      a.toNat / 4 :: (a.toNat % 4 * 16 + b.toNat / 16) :: (b.toNat % 16 * 4 + c.toNat / 64) ::
        c.toNat % 64 :: pack l

/-- The bytes of a list of groups, and the bits that are left over, in the place they have in
the next byte. -/
def unpack : List Nat → List UInt8 × Nat
  | [] => ([], 0)
  | [d] => ([], d * 4)
  | [d, e] => ([UInt8.ofNat (d * 4 + e / 16)], e % 16 * 16)
  | [d, e, f] =>
      ([UInt8.ofNat (d * 4 + e / 16), UInt8.ofNat (e % 16 * 16 + f / 4)], f % 4 * 64)
  | d :: e :: f :: g :: l =>
      (UInt8.ofNat (d * 4 + e / 16) :: UInt8.ofNat (e % 16 * 16 + f / 4) ::
        UInt8.ofNat (f % 4 * 64 + g) :: (unpack l).1, (unpack l).2)

/-- A byte is made of a number. -/
theorem ofNat_eq {n : Nat} {b : UInt8} (h : n = b.toNat) : UInt8.ofNat n = b := by
  rw [h, UInt8.ofNat_toNat]

theorem toNat_ofNat {n : Nat} (h : n < 256) : (UInt8.ofNat n).toNat = n := by
  rw [UInt8.toNat_ofNat']
  exact Nat.mod_eq_of_lt h

/-- Groups have six bits. -/
theorem pack_lt (l : List UInt8) : ∀ d ∈ pack l, d < 64 := by
  induction l using pack.induct with
  | case1 => simp [pack]
  | case2 a =>
      have ha := a.toNat_lt
      simp only [pack, List.mem_cons, List.not_mem_nil, or_false, forall_eq_or_imp, forall_eq]
      omega
  | case3 a b =>
      have ha := a.toNat_lt
      have hb := b.toNat_lt
      simp only [pack, List.mem_cons, List.not_mem_nil, or_false, forall_eq_or_imp, forall_eq]
      omega
  | case4 a b c l ih =>
      have ha := a.toNat_lt
      have hb := b.toNat_lt
      have hc := c.toNat_lt
      simp only [pack, List.mem_cons, forall_eq_or_imp]
      exact ⟨by omega, by omega, by omega, by omega, ih⟩

theorem lt_concat {ds : List Nat} {d : Nat} (hd : ∀ d ∈ ds, d < 64) (h : d < 64) :
    ∀ e ∈ ds ++ [d], e < 64 := by
  intro e he
  rcases List.mem_append.mp he with he | he
  · exact hd e he
  · exact List.mem_singleton.mp he ▸ h

theorem length_pack (l : List UInt8) : (pack l).length = l.length + (l.length + 2) / 3 := by
  induction l using pack.induct with
  | case1 | case2 | case3 => simp [pack]
  | case4 a b c l ih =>
      simp only [pack, List.length_cons, ih]
      omega

theorem length_unpack (ds : List Nat) : (unpack ds).1.length = ds.length * 3 / 4 := by
  induction ds using unpack.induct with
  | case1 | case2 | case3 | case4 => simp [unpack]
  | case5 d e f g l ih =>
      simp only [unpack, List.length_cons, ih]
      omega

/-- **Unpacking gives back the bytes**, with nothing left over. -/
theorem unpack_pack (l : List UInt8) : unpack (pack l) = (l, 0) := by
  induction l using pack.induct with
  | case1 => rfl
  | case2 a =>
      simp only [pack, unpack, Prod.mk.injEq, List.cons.injEq, and_true]
      exact ⟨ofNat_eq (by omega), by omega⟩
  | case3 a b =>
      have hb := b.toNat_lt
      simp only [pack, unpack, Prod.mk.injEq, List.cons.injEq, and_true]
      exact ⟨⟨ofNat_eq (by omega), ofNat_eq (by omega)⟩, by omega⟩
  | case4 a b c l ih =>
      have hb := b.toNat_lt
      have hc := c.toNat_lt
      simp only [pack, unpack, ih, Prod.mk.injEq, List.cons.injEq, and_true]
      exact ⟨ofNat_eq (by omega), ofNat_eq (by omega), ofNat_eq (by omega)⟩

/-- **Packing gives back the groups**, where nothing is left over. -/
theorem pack_unpack {ds : List Nat} (hd : ∀ d ∈ ds, d < 64) (h0 : (unpack ds).2 = 0)
    (h1 : ds.length % 4 ≠ 1) : pack (unpack ds).1 = ds := by
  induction ds using unpack.induct with
  | case1 => rfl
  | case2 d => exact absurd rfl h1
  | case3 d e =>
      simp only [List.mem_cons, List.not_mem_nil, or_false, forall_eq_or_imp, forall_eq] at hd
      simp only [unpack] at h0
      simp only [unpack, pack, toNat_ofNat (show d * 4 + e / 16 < 256 by omega),
        List.cons.injEq, and_true]
      omega
  | case4 d e f =>
      simp only [List.mem_cons, List.not_mem_nil, or_false, forall_eq_or_imp, forall_eq] at hd
      simp only [unpack] at h0
      simp only [unpack, pack, toNat_ofNat (show d * 4 + e / 16 < 256 by omega),
        toNat_ofNat (show e % 16 * 16 + f / 4 < 256 by omega), List.cons.injEq, and_true]
      omega
  | case5 d e f g l ih =>
      simp only [List.mem_cons, forall_eq_or_imp] at hd
      obtain ⟨hd₀, he, hf, hg, hl⟩ := hd
      simp only [List.length_cons] at h1
      have hrest : pack (unpack l).1 = l := ih hl h0 (by omega)
      simp only [unpack, pack, hrest, toNat_ofNat (show d * 4 + e / 16 < 256 by omega),
        toNat_ofNat (show e % 16 * 16 + f / 4 < 256 by omega),
        toNat_ofNat (show f % 4 * 64 + g < 256 by omega), List.cons.injEq, and_true]
      omega

/-- What is left over fits into a byte. -/
theorem unpack_left_lt {ds : List Nat} (hd : ∀ d ∈ ds, d < 64) : (unpack ds).2 < 256 := by
  induction ds using unpack.induct with
  | case1 => simp [unpack]
  | case2 d =>
      have hlt := hd d (by simp)
      simp only [unpack]
      omega
  | case3 d e | case4 d e f =>
      simp only [unpack]
      omega
  | case5 d e f g l ih =>
      exact ih fun x hx => hd x (by simp [hx])

/-- What is left over has as many bits as groups of six leave of a byte. -/
theorem unpack_left_mod (ds : List Nat) : (unpack ds).2 % 4 ^ (ds.length % 4) = 0 := by
  induction ds using unpack.induct with
  | case1 => rfl
  | case2 d => exact Nat.mul_mod_left d 4
  | case3 d e => exact Nat.mul_mod_left (e % 16) 16
  | case4 d e f => exact Nat.mul_mod_left (f % 4) 64
  | case5 d e f g l ih =>
      have hlen : (d :: e :: f :: g :: l).length % 4 = l.length % 4 := by
        simp only [List.length_cons]
        omega
      rw [hlen]
      exact ih

/-- Four groups are three bytes, and nothing is left over. -/
theorem unpack_left {ds : List Nat} (h : ds.length % 4 = 0) : (unpack ds).2 = 0 := by
  induction ds using unpack.induct with
  | case1 => rfl
  | case2 | case3 | case4 => simp at h
  | case5 d e f g l ih =>
      simp only [List.length_cons] at h
      exact ih (by omega)

/-- **One more group**: it completes the byte that was begun, and begins the next one. -/
theorem unpack_concat (ds : List Nat) (d : Nat) : unpack (ds ++ [d]) =
    match ds.length % 4 with
    | 0 => ((unpack ds).1, d * 4)
    | 1 => ((unpack ds).1 ++ [UInt8.ofNat ((unpack ds).2 + d / 16)], d % 16 * 16)
    | 2 => ((unpack ds).1 ++ [UInt8.ofNat ((unpack ds).2 + d / 4)], d % 4 * 64)
    | _ => ((unpack ds).1 ++ [UInt8.ofNat ((unpack ds).2 + d)], 0) := by
  induction ds using unpack.induct with
  | case1 | case2 | case3 | case4 => simp [unpack]
  | case5 a b c e l ih =>
      have hlen : (a :: b :: c :: e :: l).length % 4 = l.length % 4 := by
        simp only [List.length_cons]
        omega
      rw [hlen, List.cons_append, List.cons_append, List.cons_append, List.cons_append]
      simp only [unpack, ih]
      split <;> rfl

/-- How many bytes are begun by a number of groups. -/
def begun (n : Nat) : Nat := n / 4 * 3 + n % 4

theorem begun_mono {m n : Nat} (h : m ≤ n) : begun m ≤ begun n := by
  simp only [begun]
  omega

/-! ### Texts -/

/-- **An alphabet**: 64 letters, and a pad that is none of them. -/
structure Alphabet (β : Type) where
  letters : List β
  size : letters.length = 64
  nodup : letters.Nodup
  pad : β
  pad_not_mem : pad ∉ letters

namespace Alphabet

variable {β : Type} {A : Alphabet β} {ds : List Nat} {bs : List UInt8} {s : List β}

/-- The letter of a group. -/
def letter (A : Alphabet β) (d : Nat) : β := A.letters.getD d A.pad

/-- The group of a letter. -/
def index [DecidableEq β] (A : Alphabet β) (ch : β) : Option Nat := A.letters.idxOf? ch

/-- The pads behind a number of groups. -/
def pads (A : Alphabet β) (n : Nat) : List β := List.replicate ((4 - n % 4) % 4) A.pad

/-- **The text of a list of bytes.** -/
def encode (A : Alphabet β) (bs : List UInt8) : List β :=
  (pack bs).map A.letter ++ A.pads (pack bs).length

/-- The bytes of groups, if nothing is left over. -/
def close (ds : List Nat) : Option (List UInt8) :=
  if ds.length % 4 ≠ 1 ∧ (unpack ds).2 = 0 then some (unpack ds).1 else none

/-- The decoder, after the groups `ds`. -/
def decodeFrom [DecidableEq β] (A : Alphabet β) (ds : List Nat) : List β → Option (List UInt8)
  | [] => if ds.length % 4 = 0 then close ds else none
  | ch :: s =>
      if ch = A.pad then if ch :: s = A.pads ds.length then close ds else none
      else (A.index ch).bind fun d => A.decodeFrom (ds ++ [d]) s

/-- **The decoder.** -/
def decode [DecidableEq β] (A : Alphabet β) (s : List β) : Option (List UInt8) :=
  A.decodeFrom [] s

/-- The group of a letter is where it stands in the alphabet. -/
theorem index_eq_some [DecidableEq β] {ch : β} {d : Nat} :
    A.index ch = some d ↔ d < 64 ∧ A.letter d = ch := by
  rw [index, List.idxOf?_eq_some_iff, letter]
  constructor
  · rintro ⟨hd, hch, -⟩
    refine ⟨A.size ▸ hd, ?_⟩
    rw [List.getD_eq_getElem _ _ hd]
    exact hch
  · rintro ⟨hd, rfl⟩
    have hlt : d < A.letters.length := A.size.symm ▸ hd
    rw [List.getD_eq_getElem _ _ hlt]
    refine ⟨hlt, rfl, fun j hj heq => ?_⟩
    exact absurd ((A.nodup.getElem_inj_iff).mp heq) (Nat.ne_of_lt hj)

theorem letter_ne_pad {d : Nat} (hd : d < 64) : A.letter d ≠ A.pad := by
  have hlt : d < A.letters.length := A.size.symm ▸ hd
  rw [letter, List.getD_eq_getElem _ _ hlt]
  exact fun h => A.pad_not_mem (h ▸ List.getElem_mem hlt)

/-- Groups are those of a list of bytes if nothing is left over. -/
theorem close_eq_some (hd : ∀ d ∈ ds, d < 64) : close ds = some bs ↔ pack bs = ds := by
  rw [close]
  constructor
  · intro h
    split at h
    · next hc =>
      obtain rfl := Option.some.inj h
      exact pack_unpack hd hc.2 hc.1
    · cases h
  · rintro rfl
    have hlen := length_pack bs
    rw [unpack_pack, if_pos ⟨by omega, rfl⟩]

/-- **What the decoder accepts** after some groups. -/
theorem decodeFrom_eq_some [DecidableEq β] (hd : ∀ d ∈ ds, d < 64) :
    A.decodeFrom ds s = some bs ↔
    ∃ es, pack bs = ds ++ es ∧ s = es.map A.letter ++ A.pads (pack bs).length := by
  induction s generalizing ds with
  | nil =>
      rw [decodeFrom]
      constructor
      · intro h
        split at h
        · next hlen =>
          have hp := (close_eq_some hd).mp h
          refine ⟨[], by rw [hp, List.append_nil], ?_⟩
          rw [hp]
          simp [pads, hlen]
        · cases h
      · rintro ⟨es, hp, hs⟩
        obtain ⟨hes, hpads⟩ := List.append_eq_nil_iff.mp hs.symm
        obtain rfl := List.map_eq_nil_iff.mp hes
        rw [List.append_nil] at hp
        rw [hp, pads, List.replicate_eq_nil_iff] at hpads
        rw [if_pos (by omega)]
        exact (close_eq_some hd).mpr hp
  | cons ch s ih =>
      rw [decodeFrom]
      split
      · next hch =>
        subst hch
        constructor
        · intro h
          split at h
          · next hs =>
            have hp := (close_eq_some hd).mp h
            exact ⟨[], by rw [hp, List.append_nil], by rw [hp, hs]; rfl⟩
          · cases h
        · rintro ⟨es, hp, hs⟩
          cases es with
          | nil =>
              rw [List.append_nil] at hp
              rw [hp, List.map_nil, List.nil_append] at hs
              rw [if_pos hs]
              exact (close_eq_some hd).mpr hp
          | cons e es =>
              have he : e < 64 := pack_lt bs e (by simp [hp])
              exact absurd (List.cons.inj hs).1.symm (A.letter_ne_pad he)
      · next hch =>
        rw [Option.bind_eq_some_iff]
        constructor
        · rintro ⟨d, hix, h⟩
          obtain ⟨hlt, rfl⟩ := index_eq_some.mp hix
          obtain ⟨es, hp, rfl⟩ := (ih (lt_concat hd hlt)).mp h
          exact ⟨d :: es, by simpa using hp, rfl⟩
        · rintro ⟨es, hp, hs⟩
          cases es with
          | nil =>
              have hmem : ch ∈ A.pads (pack bs).length := by
                rw [List.map_nil, List.nil_append] at hs
                simp [← hs]
              exact absurd (List.eq_of_mem_replicate hmem) hch
          | cons e es =>
              have he : e < 64 := pack_lt bs e (by simp [hp])
              obtain ⟨rfl, rfl⟩ := List.cons.inj hs
              refine ⟨e, index_eq_some.mpr ⟨he, rfl⟩, ?_⟩
              exact (ih (lt_concat hd he)).mpr ⟨es, by simpa using hp, rfl⟩

/-- **The decoder accepts the texts of lists of bytes, and no others.** -/
theorem decode_eq_some_iff [DecidableEq β] : A.decode s = some bs ↔ s = A.encode bs := by
  rw [decode, decodeFrom_eq_some (by simp), encode]
  constructor
  · rintro ⟨es, hp, hs⟩
    rw [hs, hp, List.nil_append]
  · rintro rfl
    exact ⟨pack bs, rfl, rfl⟩

/-- The characters of a text. -/
theorem mem_encode {ch : β} (h : ch ∈ A.encode bs) : ch ∈ A.letters ∨ ch = A.pad := by
  rcases List.mem_append.mp h with h | h
  · obtain ⟨d, hd, rfl⟩ := List.mem_map.mp h
    have hlt : d < A.letters.length := A.size.symm ▸ pack_lt bs d hd
    rw [letter, List.getD_eq_getElem _ _ hlt]
    exact .inl (List.getElem_mem hlt)
  · exact .inr (List.eq_of_mem_replicate h)

/-- A text has whole groups of four letters. -/
theorem length_encode (bs : List UInt8) : (A.encode bs).length = (bs.length + 2) / 3 * 4 := by
  rw [encode, List.length_append, List.length_map, pads, List.length_replicate, length_pack]
  omega

end Alphabet

end Sextets
