import Adbd.CString
import Adbd.SmartClient

/-!
# The List of JDWP Processes

`jdwp_process_list` prints the pids of the list into a buffer, one a line. It relies on what
`snprintf` returns for a text that did not fit: such a line is there in part, and the
terminator is put where it starts. `jdwp_process_list_msg` writes the length of the text in
front of it. Here the two functions work on a buffer at any offset, and what they leave there
is compared with the text that `Adbd.jdwpProcessList` stands for.

## Main definitions

* `jdwpProcessListAt`, `jdwpProcessListMsgAt`: the functions, on a buffer.
* `pidLines`: the lines of some pids.
* `Longest`: the pids of which the lines fit.

## Main results

* `jdwpProcessListFrom_longest`: the text has the lines of the longest prefix that fits.
* `run_jdwpProcessListAt`: the buffer holds that text.
* `process_list_msg_exact`: the message is within the buffer, and its head is the length.
-/

namespace Adbd

open CString

/-! ### The functions -/

/-- The loop of `jdwp_process_list`, where the buffer ends at `stop` and `p` is the pointer. -/
def jdwpListLoop (stop : Nat) : List Int → Nat → Acc Nat
  | [], p => pure p
  | pid :: l, p =>
      if pid < 0 then jdwpListLoop stop l p
      else do
        let len ← snprintf p (stop - p) (pidLine pid.toNat)
        if p + len ≥ stop then pure p else jdwpListLoop stop l (p + len)

/-- `jdwp_process_list`, on the buffer at the offset `buffer`. -/
def jdwpProcessListAt (buffer bufferlen : Nat) (pids : List Int) : Acc Nat := do
  let p ← jdwpListLoop (buffer + bufferlen) pids buffer
  wr p 0
  pure (p - buffer)

/-- `jdwp_process_list_msg`. The array `head` takes the first four characters of `"%04x"`. -/
def jdwpProcessListMsgAt (buffer bufferlen : Nat) (pids : List Int) : Acc Nat := do
  let len ← jdwpProcessListAt (buffer + 4) (bufferlen - 4) pids
  writeN buffer ((hex4 len).take 4)
  pure (len + 4)

/-! ### The text -/

/-- The lines of the processes of a list. -/
def pidLines (pids : List Nat) : List UInt8 := pids.flatMap pidLine

/-- The pids of the processes that have identified themselves. -/
def listedPids (pids : List Int) : List Nat := (pids.filter (0 ≤ ·)).map Int.toNat

/-- **The longest prefix that fits**: the lines of the pids `ps`, the first ones of a list, are
less than `room`, and those of no longer prefix are. -/
structure Longest (pids : List Int) (room : Nat) (ps : List Nat) : Prop where
  isPrefix : ps <+: listedPids pids
  fits : (pidLines ps).length < room
  longest : ∀ qs, qs <+: listedPids pids → (pidLines qs).length < room → qs <+: ps

variable {pids : List Int} {pid : Int} {room buffer stop p : Nat} {ps : List Nat} {m : Buf}

theorem listedPids_of_neg (pids : List Int) (h : pid < 0) :
    listedPids (pid :: pids) = listedPids pids := by
  simp [listedPids, Int.not_le.mpr h]

theorem listedPids_of_nonneg (pids : List Int) (h : 0 ≤ pid) :
    listedPids (pid :: pids) = pid.toNat :: listedPids pids := by
  simp [listedPids, h]

/-- The text of the list is the lines of the longest prefix that fits. -/
theorem jdwpProcessListFrom_longest (pids : List Int) (h : 0 < room) :
    ∃ ps, Longest pids room ps ∧ jdwpProcessListFrom pids room = pidLines ps := by
  induction pids generalizing room with
  | nil => exact ⟨[], ⟨List.prefix_refl _, h, fun qs hq _ => hq⟩, rfl⟩
  | cons pid l ih =>
      rw [jdwpProcessListFrom]
      by_cases hneg : pid < 0
      · obtain ⟨ps, hps, htext⟩ := ih h
        have hpid := listedPids_of_neg l hneg
        rw [if_pos hneg, htext]
        exact ⟨ps, ⟨by rw [hpid]; exact hps.isPrefix, hps.fits,
          fun qs hq => hps.longest qs (hpid ▸ hq)⟩, rfl⟩
      · have hpid := listedPids_of_nonneg l (Int.not_lt.mp hneg)
        rw [if_neg hneg]
        dsimp only
        by_cases hfull : room ≤ (pidLine pid.toNat).length
        · rw [if_pos hfull]
          refine ⟨[], ⟨List.nil_prefix, h, fun qs hq hfit => ?_⟩, rfl⟩
          cases qs with
          | nil => exact List.nil_prefix
          | cons x qs =>
              obtain ⟨rfl, -⟩ := List.cons_prefix_cons.mp (hpid ▸ hq)
              simp only [pidLines, List.flatMap_cons, List.length_append] at hfit
              omega
        · rw [if_neg hfull]
          obtain ⟨ps, hps, htext⟩ := ih (show 0 < room - (pidLine pid.toNat).length by omega)
          refine ⟨pid.toNat :: ps, ⟨?_, ?_, fun qs hq hfit => ?_⟩, by rw [htext]; rfl⟩
          · rw [hpid]
            exact List.cons_prefix_cons.mpr ⟨rfl, hps.isPrefix⟩
          · have := hps.fits
            simp only [pidLines, List.flatMap_cons, List.length_append] at this ⊢
            omega
          · cases qs with
            | nil => exact List.nil_prefix
            | cons x qs =>
                obtain ⟨rfl, hq'⟩ := List.cons_prefix_cons.mp (hpid ▸ hq)
                refine List.cons_prefix_cons.mpr ⟨rfl, hps.longest qs hq' ?_⟩
                simp only [pidLines, List.flatMap_cons, List.length_append] at hfit ⊢
                omega

/-! ### The buffer -/

/-- The loop leaves the text behind the pointer it starts with. -/
theorem run_jdwpListLoop (p : Nat) (pids : List Int) (m : Buf) (h : p < stop) :
    ((jdwpListLoop stop pids p).run m).1 = p + (jdwpProcessListFrom pids (stop - p)).length ∧
      Wrote p stop m ((jdwpListLoop stop pids p).run m).2 ∧
      Holds ((jdwpListLoop stop pids p).run m).2 p (jdwpProcessListFrom pids (stop - p)) := by
  induction pids generalizing p m with
  | nil => exact ⟨rfl, .refl m, nofun⟩
  | cons pid l ih =>
      rw [jdwpListLoop, jdwpProcessListFrom]
      by_cases hneg : pid < 0
      · rw [if_pos hneg, if_pos hneg]
        exact ih p m h
      · rw [if_neg hneg, if_neg hneg, Acc.run_bind]
        obtain ⟨hlen, hw, hfits⟩ := run_snprintf p (pidLine pid.toNat) m
          (Nat.sub_pos_of_lt h)
        rw [Nat.add_sub_of_le (Nat.le_of_lt h)] at hw
        dsimp only
        rw [hlen]
        set m₁ := ((snprintf p (stop - p) (pidLine pid.toNat)).run m).2
        by_cases hfull : stop - p ≤ (pidLine pid.toNat).length
        · rw [if_pos hfull, if_pos (by omega)]
          exact ⟨rfl, hw, nofun⟩
        · rw [if_neg hfull, if_neg (by omega)]
          obtain ⟨hline, -⟩ := hfits (by omega)
          obtain ⟨hp, hrest, hholds⟩ := ih (p + (pidLine pid.toNat).length) m₁ (by omega)
          rw [← Nat.sub_sub] at hp hholds
          refine ⟨?_, hw.trans (hrest.mono (by omega) (Nat.le_refl _)), ?_⟩
          · rw [hp, List.length_append, Nat.add_assoc]
          · exact (hline.wrote hrest (.inl (Nat.le_refl _))).append hholds

/-- **The buffer of `jdwp_process_list`** holds the text and its terminator. -/
theorem run_jdwpProcessListAt (buffer : Nat) (pids : List Int) (m : Buf) (h : 0 < room) :
    ((jdwpProcessListAt buffer room pids).run m).1 = (jdwpProcessList pids room).length ∧
      Wrote buffer (buffer + room) m ((jdwpProcessListAt buffer room pids).run m).2 ∧
      Holds ((jdwpProcessListAt buffer room pids).run m).2 buffer
        (jdwpProcessList pids room ++ [0]) := by
  obtain ⟨ps, hps, htext⟩ := jdwpProcessListFrom_longest pids h
  have hfits := hps.fits
  rw [← htext] at hfits
  obtain ⟨hp, hw, hholds⟩ := run_jdwpListLoop buffer pids m
    (show buffer < buffer + room by omega)
  rw [Nat.add_sub_cancel_left] at hp hholds
  simp only [jdwpProcessListAt, Acc.run_bind, Acc.run_wr, Acc.run_pure]
  rw [hp, jdwpProcessList]
  set m₁ := ((jdwpListLoop (buffer + room) pids buffer).run m).2
  set n := (jdwpProcessListFrom pids room).length with hn
  have hput : Wrote (buffer + n) (buffer + n + 1) m₁ (m₁.put (buffer + n) 0) :=
    .put (Nat.le_refl _) (Nat.lt_succ_self _)
  refine ⟨Nat.add_sub_cancel_left .., hw.trans (hput.mono (by omega) (by omega)), ?_⟩
  refine (hholds.wrote hput (.inl (Nat.le_refl _))).append fun i hi => ?_
  obtain rfl : i = 0 := by simpa using hi
  simp [Buf.put, hn]

/-! ### The length in front -/

/-- The digits of a number, and those of another behind them. -/
theorem hexValueFrom_append (n : Nat) (bs cs : List UInt8) :
    hexValueFrom n (bs ++ cs) = (hexValueFrom n bs).bind fun k => hexValueFrom k cs := by
  induction bs generalizing n with
  | nil => rfl
  | cons b bs ih =>
      rw [List.cons_append, hexValueFrom, hexValueFrom]
      cases hexDigit b with
      | none => rfl
      | some c => exact ih _

/-- A digit. -/
theorem hexValueFrom_digit (n : Nat) {d : Nat} (h : d < 16) :
    hexValueFrom n (ascii [d.digitChar]) = some (16 * n + d) := by
  have hdigit : ∀ d < 16, (hexDigit (UInt8.ofNat (Nat.digitChar d).toNat)).map UInt32.toNat =
      some d := by
    decide +kernel
  obtain ⟨c, hc, hd⟩ := Option.map_eq_some_iff.mp (hdigit d h)
  simp [ascii, hexValueFrom, hc, hd]

/-- `"%x"` prints the number. -/
theorem hexValue_toDigits (n : Nat) : hexValue (ascii (Nat.toDigits 16 n)) = some n := by
  induction n using Nat.strongRecOn with
  | _ n ih =>
      rw [Nat.toDigits_eq_if (by decide)]
      split
      · next hn => simpa [hexValue] using hexValueFrom_digit 0 hn
      · next hn =>
        have hsplit : ascii (Nat.toDigits 16 (n / 16) ++ [(n % 16).digitChar]) =
            ascii (Nat.toDigits 16 (n / 16)) ++ ascii [(n % 16).digitChar] := List.map_append
        rw [hexValue, hsplit, hexValueFrom_append]
        have hih : hexValueFrom 0 (ascii (Nat.toDigits 16 (n / 16))) = some (n / 16) :=
          ih (n / 16) (by omega)
        rw [hih, Option.bind_some, hexValueFrom_digit _ (Nat.mod_lt _ (by decide))]
        congr 1
        omega

/-- Zeros in front do not count. -/
theorem hexValue_zeros (k : Nat) (bs : List UInt8) :
    hexValue (List.replicate k 48 ++ bs) = hexValue bs := by
  induction k with
  | zero => rfl
  | succ k ih => simpa [hexValue, List.replicate_succ, hexValueFrom, hexDigit] using ih

/-- **The head of a message** is four digits, and `unhex` reads the number from them. -/
theorem unhex_hex4 {n : Nat} (h : n < 65536) :
    (hex4 n).length = 4 ∧ (unhex (hex4 n)).toNat = n := by
  have hle : (Nat.toDigits 16 n).length ≤ 4 :=
    (Nat.length_toDigits_le_iff (by decide) (by decide)).mpr h
  have hlen : (hex4 n).length = 4 := by
    simp only [hex4, ascii, List.length_map, List.length_append, List.length_replicate]
    omega
  have hsplit : hex4 n = List.replicate (4 - (Nat.toDigits 16 n).length) 48 ++
      ascii (Nat.toDigits 16 n) := by
    simp [hex4, ascii]
  refine ⟨hlen, ?_⟩
  rw [unhex_toNat (by omega), hsplit, hexValue_zeros, hexValue_toDigits]
  rfl

/-- **The message is well formed** for every list and every buffer of 5 to 65540 bytes: the
code reads nothing of the buffer and writes nothing outside, the text is the lines of the
longest prefix that fits, the four characters in front are its length for `unhex`, the
terminator is behind it, and the length of the whole is returned. -/
theorem process_list_msg_exact (pids : List Int) (buffer : Nat) (m : Buf) {bufferlen : Nat}
    (h5 : 5 ≤ bufferlen) (hlen : bufferlen ≤ 65540) :
    ∃ head ps, Longest pids (bufferlen - 4) ps ∧
      ((jdwpProcessListMsgAt buffer bufferlen pids).run m).1 = 4 + (pidLines ps).length ∧
      Holds ((jdwpProcessListMsgAt buffer bufferlen pids).run m).2 buffer
        (head ++ pidLines ps ++ [0]) ∧
      head.length = 4 ∧ (unhex head).toNat = (pidLines ps).length ∧
      Wrote buffer (buffer + bufferlen) m
        ((jdwpProcessListMsgAt buffer bufferlen pids).run m).2 := by
  obtain ⟨ps, hps, htext⟩ := jdwpProcessListFrom_longest pids
    (show 0 < bufferlen - 4 by omega)
  have hfits := hps.fits
  obtain ⟨hret, hw, hholds⟩ := run_jdwpProcessListAt (buffer + 4) pids m
    (show 0 < bufferlen - 4 by omega)
  rw [jdwpProcessList, htext] at hret hholds
  obtain ⟨hfour, hhead⟩ := unhex_hex4 (n := (pidLines ps).length) (by omega)
  refine ⟨hex4 (pidLines ps).length, ps, hps, ?_⟩
  have htake : (hex4 (pidLines ps).length).take 4 = hex4 (pidLines ps).length :=
    List.take_of_length_le (Nat.le_of_eq hfour)
  simp only [jdwpProcessListMsgAt, Acc.run_bind, Acc.run_pure]
  rw [hret, htake]
  set m₁ := ((jdwpProcessListAt (buffer + 4) (bufferlen - 4) pids).run m).2
  obtain ⟨hw', hholds'⟩ := run_writeN buffer (hex4 (pidLines ps).length) m₁
  rw [hfour] at hw'
  refine ⟨Nat.add_comm .., ?_, hfour, hhead, ?_⟩
  · rw [List.append_assoc]
    refine hholds'.append ?_
    rw [hfour]
    exact hholds.wrote hw' (.inr (Nat.le_refl _))
  · exact (hw.mono (by omega) (by omega)).trans (hw'.mono (Nat.le_refl _) (by omega))

/-- Two processes and one that has not identified itself, where the second line does not
fit. -/
theorem process_list_msg_short :
    ∃ head ps, Longest [7, -1, 1234] (9 - 4) ps ∧
      ((jdwpProcessListMsgAt 0 9 [7, -1, 1234]).run (.ofList [])).1 = 4 +
        (pidLines ps).length ∧
      Holds ((jdwpProcessListMsgAt 0 9 [7, -1, 1234]).run (.ofList [])).2 0
        (head ++ pidLines ps ++ [0]) ∧
      head.length = 4 ∧ (unhex head).toNat = (pidLines ps).length ∧
      Wrote 0 (0 + 9) (.ofList [])
        ((jdwpProcessListMsgAt 0 9 [7, -1, 1234]).run (.ofList [])).2 :=
  process_list_msg_exact [7, -1, 1234] 0 (.ofList []) (by decide) (by decide)

end Adbd
