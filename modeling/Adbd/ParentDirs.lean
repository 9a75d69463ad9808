import Adbd.BackupArgs
import Adbd.FileSync

/-!
# The Parents of a Path

`mkdirs` of the file sync service cuts the path of a file at every slash behind the first one,
calls `mkdir` on what is in front of it, and puts the slash back. Here is the loop on the path
in memory, with a `mkdir` that may do anything: what it is called on, and what is left of the
path. The service itself is modelled on lists of bytes; the two are compared at the end.

## Main definitions

* `mkdirs`: the function on the path in memory.
* `parentDirs`: what is in front of every slash but one at the start.

## Main results

* `run_mkdirs`: the directories are made one after the other, and the path is as it was.
* `mkdirs_creates_parents`: the calls, for any sequence of results.
* `run_mkdirs_files`: the service has the same effect on its files.
-/

namespace Adbd

open CString

/-! ### The function -/

/-- `'/'`. -/
def slash : UInt8 := 47

/-- What a call of `mkdir` returns, and `errno` after it. -/
structure MkdirResult where
  ret : Int
  errno : Errno
deriving DecidableEq, Repr

/-- The call has failed, and not because there is something of that name. -/
def MkdirResult.Stops (r : MkdirResult) : Prop := r.ret < 0 ∧ r.errno ≠ .eexist

instance (r : MkdirResult) : Decidable r.Stops := by
  unfold MkdirResult.Stops; infer_instance

namespace ParentDirs

variable {σ : Type} (mkdir : σ → Path → UInt32 → MkdirResult × σ)

/-- `adb_dirstart`, over at most `n` bytes. -/
def adbDirstart (n x : Nat) : Acc (Option Nat) := strchr slash n x

/-- The loop of `mkdirs` from `x` on, for at most so many turns: what is returned, if it ends,
and what `mkdir` has done. -/
def mkdirsLoop (n name : Nat) : Nat → Nat → σ → Acc (Option Int × σ)
  | 0, _, files => pure (none, files)
  | turns + 1, x, files => do
      match ← adbDirstart n x with
      | none => pure (some 0, files)
      | some x => do
          wr x 0
          let dir ← strdup n name
          let r := mkdir files dir 0o775
          if r.1.Stops then do
            wr x slash
            pure (some r.1.ret, r.2)
          else do
            wr x slash
            mkdirsLoop n name turns (x + 1) r.2

/-- `mkdirs`, for a path of less than `n` bytes. -/
def mkdirs (n name : Nat) (files : σ) : Acc (Option Int × σ) := do
  let b ← rd name
  if b ≠ slash then pure (some (-1), files) else mkdirsLoop mkdir n name n (name + 1) files

/-! ### What it does -/

/-- What is in front of every slash of a path, but one at the start. -/
def parentDirs (path : Path) : List Path := (offsets slash path 1).map path.take

/-- They are the parts of the path that are not empty and have a slash behind them. -/
theorem mem_parentDirs {path dir : Path} :
    dir ∈ parentDirs path ↔ dir ≠ [] ∧ dir ++ [slash] <+: path := by
  rw [parentDirs, List.mem_map]
  constructor
  · rintro ⟨j, hj, rfl⟩
    obtain ⟨hpos, hlt, hslash⟩ := mem_offsets.mp hj
    refine ⟨fun hnil => ?_, ?_⟩
    · have hlen := congrArg List.length hnil
      rw [List.length_take_of_le (Nat.le_of_lt hlt), List.length_nil] at hlen
      omega
    · have hget : path[j] = slash := by simpa [hlt] using hslash
      rw [← hget, List.take_concat_get' path j hlt]
      exact List.take_prefix ..
  · rintro ⟨hne, rest, rfl⟩
    refine ⟨dir.length, mem_offsets.mpr ⟨List.length_pos_iff.mpr hne, ?_, ?_⟩, ?_⟩
    · simp
    · simp
    · simp

/-- Every one is longer than the one before it. -/
theorem parentDirs_sorted (path : Path) :
    (parentDirs path).Pairwise fun dir dir' => dir.length < dir'.length := by
  have hsorted : (offsets slash path 1).Pairwise (· < ·) :=
    List.Pairwise.filter _ List.pairwise_lt_range'
  refine List.pairwise_map.mpr (hsorted.imp_of_mem fun hi hj hij => ?_)
  rw [List.length_take_of_le (Nat.le_of_lt (mem_offsets.mp hi).2.1),
    List.length_take_of_le (Nat.le_of_lt (mem_offsets.mp hj).2.1)]
  exact hij

/-- The directories are made in order, up to one for which this is not possible. -/
def makeDirs : List Path → σ → Int × σ
  | [], files => (0, files)
  | dir :: dirs, files =>
      let r := mkdir files dir 0o775
      if r.1.Stops then (r.1.ret, r.2) else makeDirs dirs r.2

variable {mkdir} {m : Buf} {name n i j turns : Nat} {path : Path} {files : σ}

theorem makeDirs_stop {dir : Path} {dirs : List Path} (h : (mkdir files dir 0o775).1.Stops) :
    makeDirs mkdir (dir :: dirs) files =
      ((mkdir files dir 0o775).1.ret, (mkdir files dir 0o775).2) := if_pos h

theorem makeDirs_go {dir : Path} {dirs : List Path} (h : ¬(mkdir files dir 0o775).1.Stops) :
    makeDirs mkdir (dir :: dirs) files = makeDirs mkdir dirs (mkdir files dir 0o775).2 :=
      if_neg h

/-- The string in front of a byte that is cut off. -/
theorem cut (h : CStringAt m name path) (hj : j < path.length) :
    CStringAt (m.put (name + j) 0) name (path.take j) := by
  have hlen : (path.take j).length = j := List.length_take_of_le (Nat.le_of_lt hj)
  refine ⟨fun k hk => ?_, ?_, fun hzero => h.nonzero (List.mem_of_mem_take hzero)⟩
  · rw [hlen] at hk
    rw [Buf.put_bytes_of_ne _ _ (by omega), List.getElem_take]
    exact h.holds k (by omega)
  · rw [hlen]
    exact Function.update_self ..

/-- What `mkdir` is called with, and the path with its slash put back. -/
theorem run_cut (h : CStringAt m name path) (hj : j < path.length)
    (hslash : path.getD j 0 = slash) (hn : path.length < n) :
    ((strdup n name).run (m.put (name + j) 0)).1 = path.take j ∧
      (((strdup n name).run (m.put (name + j) 0)).2.put (name + j) slash).bytes = m.bytes := by
  have hcut := cut h hj
  have hlen : (path.take j).length < n := Nat.lt_of_le_of_lt (List.length_take_le' ..) hn
  have hb : m.bytes (name + j) = slash := by
    rw [h.holds j hj, ← hslash]
    simp [hj]
  refine ⟨strdup_string hcut.holds hcut.zero hcut.nonzero hlen, ?_⟩
  rw [Buf.put, strdup_frame, Buf.put]
  dsimp only
  rw [Function.update_idem, ← hb, Function.update_eq_self]

variable (mkdir files)

/-- **The loop** makes the directories from its position on, and leaves the path as it was. -/
theorem run_mkdirsLoop (h : CStringAt m name path) (hi : i ≤ path.length)
    (hturns : path.length < i + turns) (hn : path.length < n) :
    ((mkdirsLoop mkdir n name turns (name + i) files).run m).1 =
        (some (makeDirs mkdir ((offsets slash path i).map path.take) files).1,
          (makeDirs mkdir ((offsets slash path i).map path.take) files).2) ∧
      ((mkdirsLoop mkdir n name turns (name + i) files).run m).2.bytes = m.bytes := by
  have hne : slash ≠ 0 := by decide
  induction turns generalizing i m files with
  | zero => exact absurd hturns (Nat.not_lt.mpr hi)
  | succ turns ih =>
      have hfind := strchr_value (n := n) h.holds h.zero h.nonzero hne hi (by omega)
      have hframe := (strchr_frame slash n (name + i) m).1
      rw [mkdirsLoop, adbDirstart, Acc.run_bind]
      set m₁ := ((strchr slash n (name + i)).run m).2
      rw [hfind]
      cases hdirs : offsets slash path i with
      | nil => exact ⟨rfl, hframe⟩
      | cons j js =>
          obtain ⟨hij, hj, hslash, rfl⟩ := offsets_tail hdirs
          have h₁ : CStringAt m₁ name path := h.of_bytes fun k _ _ => by rw [hframe]
          obtain ⟨hdir, hback⟩ := run_cut h₁ hj hslash hn
          simp only [List.head?_cons, Option.map_some, Acc.run_bind, Acc.run_wr, List.map_cons]
          rw [hdir]
          by_cases hstop : (mkdir files (path.take j) 0o775).1.Stops
          · rw [makeDirs_stop hstop, if_pos hstop]
            simp only [Acc.run_bind, Acc.run_wr, Acc.run_pure]
            exact ⟨trivial, hback.trans hframe⟩
          · rw [makeDirs_go hstop, if_neg hstop]
            simp only [Acc.run_bind, Acc.run_wr]
            set m₂ := ((strdup n name).run (m₁.put (name + j) 0)).2.put (name + j) slash
            have hbytes : m₂.bytes = m.bytes := hback.trans hframe
            have h₂ : CStringAt m₂ name path := h.of_bytes fun k _ _ => by rw [hbytes]
            obtain ⟨hres, hkept⟩ :=
              ih (i := j + 1) (mkdir files (path.take j) 0o775).2 h₂ hj (by omega)
            rw [← Nat.add_assoc] at hres hkept
            exact ⟨hres, hkept.trans hbytes⟩

/-- **The function** makes the directories in front of a path that starts with a slash, and
leaves the path as it was. -/
theorem run_mkdirs (h : CStringAt m name path) (hn : path.length < n) :
    ((mkdirs mkdir n name files).run m).1 =
        (if path.head? = some slash then
          (some (makeDirs mkdir (parentDirs path) files).1,
            (makeDirs mkdir (parentDirs path) files).2)
        else (some (-1), files)) ∧
      ((mkdirs mkdir n name files).run m).2.bytes = m.bytes := by
  rw [mkdirs, Acc.run_bind, Acc.run_rd]
  dsimp only
  cases path with
  | nil =>
      have hb : m.bytes name = 0 := h.zero
      rw [hb, if_pos (by decide), if_neg (by simp)]
      exact ⟨rfl, Buf.touch_bytes ..⟩
  | cons b rest =>
      have hb : m.bytes name = b := h.holds 0 (Nat.succ_pos _)
      rw [hb]
      by_cases hhead : (b :: rest).head? = some slash
      · rw [if_pos hhead, if_neg (not_not.mpr (Option.some.inj hhead))]
        have htouch : CStringAt (m.touch name) name (b :: rest) :=
          h.of_bytes fun k _ _ => by rw [Buf.touch_bytes]
        obtain ⟨hres, hkept⟩ := run_mkdirsLoop mkdir files htouch (Nat.succ_pos _)
          (Nat.lt_of_lt_of_le hn (Nat.le_add_left ..)) hn
        exact ⟨hres, hkept.trans (Buf.touch_bytes ..)⟩
      · rw [if_neg hhead, if_pos fun hslash => hhead (congrArg some hslash)]
        exact ⟨rfl, Buf.touch_bytes ..⟩

/-! ### The calls -/

/-- A `mkdir` that returns one result after the other, and notes what it is called with. -/
def recorded (results : Nat → MkdirResult) (calls : List (Path × UInt32)) (dir : Path)
    (mode : UInt32) : MkdirResult × List (Path × UInt32) :=
  (results calls.length, calls ++ [(dir, mode)])

variable {results : Nat → MkdirResult} {dirs : List Path} {k : Nat}

/-- Up to the first result that stops it. -/
theorem makeDirs_recorded_stop (calls : List (Path × UInt32)) (hk : k < dirs.length)
    (hstop : (results (calls.length + k)).Stops)
    (hgo : ∀ i < k, ¬(results (calls.length + i)).Stops) :
    makeDirs (recorded results) dirs calls =
      ((results (calls.length + k)).ret, calls ++ (dirs.take (k + 1)).map (·, 0o775)) := by
  induction dirs generalizing calls k with
  | nil => exact absurd hk (Nat.not_lt_zero _)
  | cons dir dirs ih =>
      cases k with
      | zero => exact makeDirs_stop hstop
      | succ k =>
          have hlen : (calls ++ [(dir, (0o775 : UInt32))]).length = calls.length + 1 := by simp
          rw [makeDirs_go (hgo 0 (Nat.succ_pos _)), recorded, ih _ (Nat.lt_of_succ_lt_succ hk)]
          · rw [hlen, Nat.add_right_comm]
            simp [Nat.add_assoc]
          · rwa [hlen, Nat.add_right_comm]
          · intro i hi
            rw [hlen, Nat.add_right_comm]
            exact hgo (i + 1) (Nat.succ_lt_succ hi)

/-- And all of them, if there is none. -/
theorem makeDirs_recorded_go (calls : List (Path × UInt32))
    (hgo : ∀ i < dirs.length, ¬(results (calls.length + i)).Stops) :
    makeDirs (recorded results) dirs calls = (0, calls ++ dirs.map (·, 0o775)) := by
  induction dirs generalizing calls with
  | nil => simp [makeDirs]
  | cons dir dirs ih =>
      have hlen : (calls ++ [(dir, (0o775 : UInt32))]).length = calls.length + 1 := by simp
      rw [makeDirs_go (hgo 0 (Nat.succ_pos _)), recorded, ih]
      · simp
      · intro i hi
        rw [hlen, Nat.add_right_comm]
        exact hgo (i + 1) (Nat.succ_lt_succ hi)

/-- **`mkdirs` creates the parents of a path, and no others**: whatever `mkdir` returns, it
comes to an end with the path as it was, and for a path that starts with a slash it has called
`mkdir` on what is in front of each other slash, up to the first call that fails without
`EEXIST`. What it returns is negative exactly if there is such a call, or if the path does not
start with a slash. -/
theorem mkdirs_creates_parents (results : Nat → MkdirResult) (m : Buf) (name n : Nat)
    (path : Path) (h : CStringAt m name path) (hn : path.length < n) :
    ∃ ret calls,
      ((mkdirs (recorded results) n name []).run m).1 = (some ret, calls) ∧
      ((mkdirs (recorded results) n name []).run m).2.bytes = m.bytes ∧
      (path.head? ≠ some slash → calls = []) ∧
      (path.head? = some slash →
        (∀ k < (parentDirs path).length, (results k).Stops → (∀ i < k, ¬(results i).Stops) →
          calls = ((parentDirs path).take (k + 1)).map (·, 0o775)) ∧
        ((∀ k < (parentDirs path).length, ¬(results k).Stops) →
          calls = (parentDirs path).map (·, 0o775))) ∧
      (ret < 0 ↔ path.head? ≠ some slash ∨
        ∃ k < (parentDirs path).length, (results k).Stops) := by
  obtain ⟨hres, hbytes⟩ := run_mkdirs (recorded results) [] h hn
  by_cases hslash : path.head? = some slash
  · rw [if_pos hslash] at hres
    have hstop (k : Nat) (hk : k < (parentDirs path).length) (hs : (results k).Stops)
        (hfirst : ∀ i < k, ¬(results i).Stops) :
        makeDirs (recorded results) (parentDirs path) [] =
          ((results k).ret, ((parentDirs path).take (k + 1)).map (·, 0o775)) := by
      have := makeDirs_recorded_stop [] hk (by simpa using hs) (by simpa using hfirst)
      simpa using this
    have hgo (hnone : ∀ k < (parentDirs path).length, ¬(results k).Stops) :
        makeDirs (recorded results) (parentDirs path) [] =
          (0, (parentDirs path).map (·, 0o775)) := by
      have := makeDirs_recorded_go [] (by simpa using hnone)
      simpa using this
    refine ⟨_, _, hres, hbytes, fun hne => absurd hslash hne, fun _ => ⟨?_, ?_⟩, ?_⟩
    · exact fun k hk hs hfirst => by rw [hstop k hk hs hfirst]
    · exact fun hnone => by rw [hgo hnone]
    · by_cases hex : ∃ k < (parentDirs path).length, (results k).Stops
      · obtain ⟨k, hk, hs, hfirst⟩ : ∃ k < (parentDirs path).length, (results k).Stops ∧
            ∀ i < k, ¬(results i).Stops := by
          obtain ⟨j, hj, hs⟩ := hex
          have hsome : ∃ k, (results k).Stops := ⟨j, hs⟩
          exact ⟨Nat.find hsome, Nat.lt_of_le_of_lt (Nat.find_min' hsome hs) hj,
            Nat.find_spec hsome, fun i hi => Nat.find_min hsome hi⟩
        rw [hstop k hk hs hfirst]
        exact iff_of_true hs.1 (.inr ⟨k, hk, hs⟩)
      · rw [hgo fun k hk hs => hex ⟨k, hk, hs⟩]
        exact iff_of_false (Int.lt_irrefl 0) (not_or.mpr ⟨not_not.mpr hslash, hex⟩)
  · rw [if_neg hslash] at hres
    exact ⟨-1, [], hres, hbytes, fun _ => rfl, fun heq => absurd heq hslash,
      iff_of_true (by decide) (.inl hslash)⟩

/-- `"/a//b"`, with room for one directory. -/
theorem mkdirs_creates_parents_full :
    ∃ ret calls,
      ((mkdirs (recorded fun k => ⟨-k, .other 28⟩) 6 0 []).run
        (.ofList [47, 97, 47, 47, 98])).1 = (some ret, calls) ∧
      ((mkdirs (recorded fun k => ⟨-k, .other 28⟩) 6 0 []).run
        (.ofList [47, 97, 47, 47, 98])).2.bytes = (Buf.ofList [47, 97, 47, 47, 98]).bytes ∧
      (List.head? [47, 97, 47, 47, 98] ≠ some slash → calls = []) ∧
      (List.head? [47, 97, 47, 47, 98] = some slash →
        (∀ k < (parentDirs [47, 97, 47, 47, 98]).length,
          (MkdirResult.mk (-k) (.other 28)).Stops →
          (∀ i < k, ¬(MkdirResult.mk (-i) (.other 28)).Stops) →
          calls = ((parentDirs [47, 97, 47, 47, 98]).take (k + 1)).map (·, 0o775)) ∧
        ((∀ k < (parentDirs [47, 97, 47, 47, 98]).length,
          ¬(MkdirResult.mk (-k) (.other 28)).Stops) →
          calls = (parentDirs [47, 97, 47, 47, 98]).map (·, 0o775))) ∧
      (ret < 0 ↔ List.head? [47, 97, 47, 47, 98] ≠ some slash ∨
        ∃ k < (parentDirs [47, 97, 47, 47, 98]).length,
          (MkdirResult.mk (-k) (.other 28)).Stops) :=
  mkdirs_creates_parents (fun k => ⟨-k, .other 28⟩) (.ofList [47, 97, 47, 47, 98]) 0 6
    [47, 97, 47, 47, 98]
    ⟨fun i hi => by simp [Buf.ofList, List.getElem?_eq_getElem hi], rfl, by decide⟩ (by decide)

/-! ### The service -/

/-- The `mkdir` of a file system, with whatever `errno` is after a success. -/
def filesMkdir (fs : FileSystem σ) (errno : Errno) (files : σ) (dir : Path) (_ : UInt32) :
    MkdirResult × σ :=
  match fs.mkdir files dir with
  | (none, files) => (⟨0, errno⟩, files)
  | (some e, files) => (⟨-1, e⟩, files)

variable {fs : FileSystem σ} {errno : Errno}

theorem makeDirs_files (dirs : List Path) (files : σ) :
    (makeDirs (filesMkdir fs errno) dirs files).2 = Adbd.mkdirsLoop fs dirs files := by
  induction dirs generalizing files with
  | nil => rfl
  | cons dir dirs ih =>
      rw [makeDirs, filesMkdir, Adbd.mkdirsLoop]
      rcases fs.mkdir files dir with ⟨_ | e, files'⟩
      · exact ih files'
      · cases e with
        | eexist => exact ih files'
        | enoent => rfl
        | other e => exact congrArg Prod.snd (if_pos ⟨(by decide : (-1 : Int) < 0), nofun⟩)

/-- The directories of the service. -/
theorem parentDirs_eq (path : Path) :
    parentDirs path =
      ((List.range path.length).filter fun k => 1 ≤ k ∧ path.getD k 0 = 47).map path.take := by
  cases path with
  | nil => rfl
  | cons b rest =>
      rw [parentDirs, offsets, List.range_eq_range', List.length_cons, Nat.add_sub_cancel,
        List.range'_succ, List.filter_cons_of_neg (by simp)]
      refine congrArg _ (List.filter_congr fun k hk => ?_)
      rw [decide_eq_decide]
      exact (and_iff_right (List.mem_range'_1.mp hk).1).symm

/-- **The service** has the same effect on its files as the function on the path in memory, and
opens the file by the same path after it. -/
theorem run_mkdirs_files (h : CStringAt m name path) (hn : path.length < n) :
    ((mkdirs (filesMkdir fs errno) n name files).run m).1.2 = Adbd.mkdirs fs path files ∧
      CStringAt ((mkdirs (filesMkdir fs errno) n name files).run m).2 name path := by
  obtain ⟨hres, hbytes⟩ := run_mkdirs (filesMkdir fs errno) files h hn
  refine ⟨?_, h.of_bytes fun i _ _ => by rw [hbytes]⟩
  rw [hres, Adbd.mkdirs, ← parentDirs_eq]
  by_cases hslash : path.head? = some slash
  · have hhead : path.head? = some 47 := hslash
    rw [if_pos hslash, if_neg (not_not.mpr hhead)]
    exact makeDirs_files ..
  · have hhead : path.head? ≠ some 47 := hslash
    rw [if_neg hslash, if_pos hhead]

end ParentDirs

end Adbd
