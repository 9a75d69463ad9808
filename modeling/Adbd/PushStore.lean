import Mathlib.Data.List.TakeWhile
import Adbd.SyncSession

/-!
# What a Push Stores

A push that is answered with `OKAY` should have stored the bytes that were sent. `do_send`
removes what is at the path before `handle_send_file` creates a new file there, but it does
not look whether the removal worked: a file that is still there is opened as it is, without
`O_TRUNC`, and what it had behind the new bytes stays.

The calls on the file system are those of POSIX, with any of them failing for any reason: a
path names a file, a file has contents, and a descriptor has a position in a file. A directory
that is made has nothing in it, so what is new at a path below it is a directory; only `..`
leads out of it, to what may be a file.

## Main definitions

* `decimal`: how the client writes the mode.
* `Posix`: what the calls do to names, contents and descriptors.
* `Posix.Stored`: a regular file is at a path, with these contents.
* `Received`: a request for the path gets these bytes.
* `filesOpened`: the files as they are when the path is opened.

## Main results

* `sendTarget_decimal`: the path and mode of a push, whatever commas the path has.
* `openTarget_ok`: the file is new, or it is the one that was left.
* `sendFileLoop_okay`: the messages go over the start of the file.
* `push_stores_iff`: the bytes were stored exactly if no longer file was at the path when it
  was opened.
-/

namespace Adbd

open CString

/-! ### The name of a push -/

/-- `"%d"` of a mode. -/
def decimal (n : Nat) : List UInt8 := ascii (Nat.toDigits 10 n)

theorem decimal_digit {d : Nat} (h : d < 10) : decimal d = [UInt8.ofNat (48 + d)] := by
  rw [decimal, Nat.toDigits_of_lt_base h]
  revert d
  decide

theorem decimal_of_le {n : Nat} (h : 10 ≤ n) :
    decimal n = decimal (n / 10) ++ decimal (n % 10) := by
  rw [decimal, Nat.toDigits_of_base_le (by decide) h, decimal, decimal,
    Nat.toDigits_of_lt_base (Nat.mod_lt n (by decide))]
  exact List.map_append

/-- A digit has its value, and is no sign, space or comma. -/
theorem digit_facts {d : Nat} (h : d < 10) :
    digitValue (UInt8.ofNat (48 + d)) = d ∧ UInt8.ofNat (48 + d) ≠ 43 ∧
      UInt8.ofNat (48 + d) ≠ 45 ∧ UInt8.ofNat (48 + d) ≠ 44 ∧
      ¬(UInt8.ofNat (48 + d) = 32 ∨ 9 ≤ UInt8.ofNat (48 + d) ∧ UInt8.ofNat (48 + d) ≤ 13) ∧
      (0 < d → UInt8.ofNat (48 + d) ≠ 48) := by
  revert d
  decide

/-- The digits of a mode, the first of which is not zero unless the mode is. -/
theorem decimal_spec (n : Nat) :
    (∀ b ∈ decimal n, ∃ d, d < 10 ∧ b = UInt8.ofNat (48 + d)) ∧
      (decimal n).foldl (fun m b => 10 * m + digitValue b) 0 = n ∧
      ∃ b bs, decimal n = b :: bs ∧ (0 < n → b ≠ 48) := by
  induction n using Nat.strong_induction_on with
  | _ n ih =>
      by_cases hn : n < 10
      · rw [decimal_digit hn]
        obtain ⟨hvalue, -, -, -, -, hzero⟩ := digit_facts hn
        exact ⟨fun b hb => ⟨n, hn, List.mem_singleton.mp hb⟩, by simpa using hvalue, _, [],
          rfl, hzero⟩
      · have hd : n % 10 < 10 := Nat.mod_lt n (by decide)
        obtain ⟨hdig, hval, b, bs, hcons, hne⟩ := ih (n / 10) (by omega)
        obtain ⟨hdig', -, -⟩ := ih (n % 10) (by omega)
        rw [decimal_of_le (by omega)]
        refine ⟨?_, ?_, b, bs ++ decimal (n % 10), by rw [hcons, List.cons_append],
          fun _ => hne (by omega)⟩
        · intro x hx
          rcases List.mem_append.mp hx with hx | hx
          · exact hdig x hx
          · exact hdig' x hx
        · rw [List.foldl_append, hval, decimal_digit hd]
          simp only [List.foldl_cons, List.foldl_nil, (digit_facts hd).1]
          omega

/-- The number behind a text that does not start with zero is decimal. -/
theorem unsignedNumber_decimal (n : Nat) : unsignedNumber (decimal n) = n := by
  obtain ⟨hdig, hval, b, bs, hcons, hne⟩ := decimal_spec n
  by_cases hn : n = 0
  · subst hn
    decide
  · have hb : b ≠ 48 := hne (by omega)
    have htake : (decimal n).takeWhile (fun b => digitValue b < 10) = decimal n := by
      rw [List.takeWhile_eq_self_iff]
      intro x hx
      obtain ⟨d, hd, rfl⟩ := hdig x hx
      rw [(digit_facts hd).1]
      exact decide_eq_true hd
    have hdigits : unsignedNumber (decimal n) = digits 10 (decimal n) := by
      rw [hcons, unsignedNumber]
      all_goals simp [hb]
    rw [hdigits, digits, htake, hval]

/-- **The mode is read back.** -/
theorem strtoul_decimal (mode : UInt32) : strtoul (decimal mode.toNat) = (mode, false) := by
  obtain ⟨hdig, -, b, bs, hcons, -⟩ := decimal_spec mode.toNat
  obtain ⟨d, hd, hbd⟩ := hdig b (by simp [hcons])
  obtain ⟨-, hplus, hminus, -, hspace, -⟩ := hbd ▸ digit_facts hd
  have hdrop : (decimal mode.toNat).dropWhile (fun b => b = 32 ∨ 9 ≤ b ∧ b ≤ 13) =
      decimal mode.toNat := by
    rw [hcons]
    exact List.dropWhile_cons_of_neg (by simpa using hspace)
  have hhead : (decimal mode.toNat).head? = some b := by rw [hcons, List.head?_cons]
  have hlt : mode.toNat < 4294967296 := mode.toNat_lt
  rw [strtoul, hdrop]
  simp [hhead, hplus, hminus, unsignedNumber_decimal, hlt]

/-- The name is split at its last comma. -/
theorem splitLastComma_append (path : Path) {text : List UInt8} (h : ∀ b ∈ text, b ≠ 44) :
    splitLastComma (path ++ 44 :: text) = some (path, text) := by
  have htake : (path ++ 44 :: text).reverse.takeWhile (· ≠ 44) = text.reverse := by
    rw [List.reverse_append, List.reverse_cons, List.append_assoc,
      List.takeWhile_append_of_pos]
    · simp
    · intro b hb
      exact decide_eq_true (h b (List.mem_reverse.mp hb))
  have hlen : path.length + (text.length + 1) - text.length - 1 = path.length := by omega
  have hne : ¬text.length = path.length + (text.length + 1) := by omega
  rw [splitLastComma, htake]
  simp only [List.reverse_reverse, List.length_append, List.length_cons, hlen, if_neg hne,
    List.take_left]

/-- **The path and mode of a push** are those of the client, also if the path has commas. -/
theorem sendTarget_decimal (path : Path) (mode : UInt32) :
    sendTarget (path ++ 44 :: decimal mode.toNat) = (path, mode &&& 0x1FF, sIsLnk mode) := by
  have hcomma : ∀ b ∈ decimal mode.toNat, b ≠ 44 := by
    intro b hb
    obtain ⟨d, hd, rfl⟩ := (decimal_spec mode.toNat).1 b hb
    exact (digit_facts hd).2.2.2.1
  rw [sendTarget, splitLastComma_append path hcomma]
  simp [strtoul_decimal]

/-! ### Files -/

/-- What a path may name: a file with contents, a directory, or a device or pipe. -/
inductive FileKind
  | regular
  | directory
  | special
deriving DecidableEq, Repr

/-- One of the components of the path is `..`. -/
def Climbs (path : Path) : Prop := [46, 46] ∈ path.splitOn 47

variable {σ : Type} {fs : FileSystem σ}

/-- **The calls as POSIX has them.** A path may name a file, a file has contents, and a
descriptor has a position in a file. The calls may fail for any reason; what is said is what
they do if they succeed, and which of it they do not do if they fail. -/
structure Posix (fs : FileSystem σ) where
  lookup : σ → Path → Option Nat
  kind : σ → Nat → FileKind
  contents : σ → Nat → List UInt8
  opened : σ → Nat → Option (Nat × Nat)
  /-- with `O_CREAT` and `O_EXCL` only a file that was not there is opened, and it is empty -/
  openNew_ok : ∀ {f f' path mode fd}, fs.openNew f path mode = (.ok fd, f') →
    lookup f path = none ∧ ∃ i, lookup f' path = some i ∧ kind f' i = .regular ∧
      contents f' i = [] ∧ opened f' fd = some (i, 0)
  openNew_error : ∀ {f f' path mode e}, fs.openNew f path mode = (.error e, f') →
    lookup f' = lookup f ∧ kind f' = kind f ∧ contents f' = contents f
  /-- a file that was there is opened as it is, at its start, and a directory is not opened -/
  openOld_ok : ∀ {f f' path fd}, fs.openOld f path = (.ok fd, f') →
    (lookup f' = lookup f ∧ kind f' = kind f ∧ contents f' = contents f) ∧
      ∃ i, lookup f path = some i ∧ kind f i ≠ .directory ∧ opened f' fd = some (i, 0)
  /-- a directory that is made is empty: below it no path without `..` names a file -/
  mkdir_made : ∀ {f dir rest i}, ¬Climbs (dir ++ 47 :: rest) →
    lookup (fs.mkdir f dir).2 (dir ++ 47 :: rest) = some i →
      lookup f (dir ++ 47 :: rest) = some i ∨ kind (fs.mkdir f dir).2 i = .directory
  mkdir_keeps : ∀ {f path dir i}, lookup f path = some i →
    lookup (fs.mkdir f dir).2 path = some i ∧ kind (fs.mkdir f dir).2 i = kind f i ∧
      contents (fs.mkdir f dir).2 i = contents f i
  writeCalls_keeps : ∀ f fd bs, lookup (fs.writeCalls f fd bs).2 = lookup f ∧
    kind (fs.writeCalls f fd bs).2 = kind f ∧ contents (fs.writeCalls f fd bs).2 = contents f ∧
    opened (fs.writeCalls f fd bs).2 = opened f
  store_names : ∀ f fd bs, lookup (fs.store f fd bs) = lookup f ∧
    kind (fs.store f fd bs) = kind f
  /-- bytes are written over those at the position, which moves behind them -/
  store_bytes : ∀ {f fd i k} bs, opened f fd = some (i, k) →
    opened (fs.store f fd bs) fd = some (i, k + bs.length) ∧
      (kind f i = .regular → k ≤ (contents f i).length →
        contents (fs.store f fd bs) i =
          (contents f i).take k ++ bs ++ (contents f i).drop (k + bs.length))
  close_keeps : ∀ f fd, lookup (fs.close f fd) = lookup f ∧ kind (fs.close f fd) = kind f ∧
    contents (fs.close f fd) = contents f
  utime_keeps : ∀ f path t, lookup (fs.utime f path t) = lookup f ∧
    kind (fs.utime f path t) = kind f ∧ contents (fs.utime f path t) = contents f
  /-- the reads of a regular file up to its end give its contents -/
  openRead_ok : ∀ {f f' path rs i}, fs.openRead f path = (.ok rs, f') →
    lookup f path = some i →
    kind f i = .regular → readsToEnd rs = true → readBytes rs = contents f i

namespace Posix

variable (P : Posix fs)

/-- **At the path is a regular file with these contents.** -/
def Stored (files : σ) (path : Path) (bs : List UInt8) : Prop :=
  ∃ i, P.lookup files path = some i ∧ P.kind files i = .regular ∧ P.contents files i = bs

/-- What is at the path, if anything, is a regular file with at most `n` bytes. -/
def NoLonger (files : σ) (path : Path) (n : Nat) : Prop :=
  ∀ i, P.lookup files path = some i → P.kind files i = .regular ∧
    (P.contents files i).length ≤ n

end Posix

variable (fs) in
/-- **A request for the path gets these bytes**, unless it gets an error. -/
def Received (files : σ) (path : Path) (bs : List UInt8) : Prop :=
  ∀ s : SyncState σ, s.files = files →
    ∃ ans, (doRecv fs s path).2.out = s.out ++ ans ∧
      ((∃ chunks : List (List UInt8), chunks.flatten = bs ∧
        ans = chunks.map .data ++ [.done]) ∨
        ∃ sent reason, ans = sent ++ [.fail reason])

/-- **What is stored is received.** -/
theorem Posix.Stored.received {P : Posix fs} {files : σ} {path : Path} {bs : List UInt8}
    (h : P.Stored files path bs) : Received fs files path bs := by
  obtain ⟨i, hlookup, hkind, hbytes⟩ := h
  rintro s rfl
  rcases ho : fs.openRead s.files path with ⟨e | rs, files⟩
  · rw [doRecv, ho]
    exact ⟨_, rfl, .inr ⟨[], _, rfl⟩⟩
  · rw [doRecv, ho]
    obtain ⟨-, -, chunks, hchunks, ⟨hend, hout⟩ | ⟨-, reason, hout⟩⟩ :=
      recvLoop_spec fs rs { s with files := files }
    · exact ⟨_, hout,
        .inl ⟨chunks, by rw [hchunks, P.openRead_ok ho hlookup hkind hend, hbytes], rfl⟩⟩
    · exact ⟨_, hout, .inr ⟨_, _, rfl⟩⟩

/-! ### Opening -/

namespace Posix

variable {P : Posix fs}

/-- Between the calls of `open`, what was at the path stays, and nothing but a directory comes
there. -/
structure Unchanged (P : Posix fs) (path : Path) (f g : σ) : Prop where
  keeps : ∀ i, P.lookup f path = some i →
    P.lookup g path = some i ∧ P.kind g i = P.kind f i ∧ P.contents g i = P.contents f i
  made : ∀ i, P.lookup g path = some i → P.lookup f path = some i ∨ P.kind g i = .directory

theorem Unchanged.refl (path : Path) (f : σ) : P.Unchanged path f f :=
  ⟨fun _ h => ⟨h, rfl, rfl⟩, fun _ h => .inl h⟩

theorem Unchanged.trans {path : Path} {f g k : σ} (h₁ : P.Unchanged path f g)
    (h₂ : P.Unchanged path g k) : P.Unchanged path f k where
  keeps i hi := by
    obtain ⟨hg, hkind, hcontents⟩ := h₁.keeps i hi
    obtain ⟨hk, hkind', hcontents'⟩ := h₂.keeps i hg
    exact ⟨hk, hkind'.trans hkind, hcontents'.trans hcontents⟩
  made i hi := by
    rcases h₂.made i hi with hg | hdir
    · rcases h₁.made i hg with hf | hdir
      · exact .inl hf
      · exact .inr ((h₂.keeps i hg).2.1.trans hdir)
    · exact .inr hdir

/-- A call that changes no names and no contents. -/
theorem Unchanged.of_eq {path : Path} {f g : σ}
    (h : P.lookup g = P.lookup f ∧ P.kind g = P.kind f ∧ P.contents g = P.contents f) :
    P.Unchanged path f g where
  keeps i hi := ⟨by rw [h.1, hi], by rw [h.2.1], by rw [h.2.2]⟩
  made i hi := .inl (by rw [← h.1, hi])

theorem Unchanged.mkdirsLoop {path : Path} (hup : ¬Climbs path) (dirs : List Path)
    (hdirs : ∀ d ∈ dirs, ∃ rest, path = d ++ 47 :: rest) (f : σ) :
    P.Unchanged path f (mkdirsLoop fs dirs f) := by
  induction dirs generalizing f with
  | nil => exact .refl path f
  | cons d dirs ih =>
      obtain ⟨rest, rfl⟩ := hdirs d (by simp)
      have hstep : P.Unchanged (d ++ 47 :: rest) f (fs.mkdir f d).2 :=
        ⟨fun _ h => P.mkdir_keeps h, fun _ h => P.mkdir_made hup h⟩
      have ih := ih fun d' hd' => hdirs d' (by simp [hd'])
      rw [Adbd.mkdirsLoop]
      split <;> rename_i heq <;> rw [heq] at hstep
      · exact hstep.trans (ih _)
      · exact hstep.trans (ih _)
      · exact hstep

/-- The directories above a path are made. -/
theorem Unchanged.mkdirs {path : Path} (hup : ¬Climbs path) (f : σ) :
    P.Unchanged path f (mkdirs fs path f) := by
  rw [Adbd.mkdirs]
  split
  · exact .refl path f
  · refine .mkdirsLoop hup _ ?_ f
    intro d hd
    simp only [List.mem_map, List.mem_filter, List.mem_range, decide_eq_true_eq] at hd
    obtain ⟨k, ⟨hk, -, hslash⟩, rfl⟩ := hd
    have hget : path[k] = 47 := by simpa [List.getD, List.getElem?_eq_getElem hk] using hslash
    exact ⟨path.drop (k + 1), by rw [← hget, List.getElem_cons_drop, List.take_append_drop]⟩

/-- **What is open for a push**: a new file, or the one that was at the path. -/
def OpenFor (P : Posix fs) (path : Path) (f f' : σ) (fd i : Nat) : Prop :=
  P.lookup f' path = some i ∧ P.opened f' fd = some (i, 0) ∧
    (P.lookup f path = none ∧ P.kind f' i = .regular ∧ P.contents f' i = [] ∨
      P.lookup f path = some i ∧ P.kind f i ≠ .directory ∧
        P.kind f' i = P.kind f i ∧ P.contents f' i = P.contents f i)

theorem OpenFor.openNew {path : Path} {f f' : σ} {mode : UInt32} {fd : Nat}
    (h : fs.openNew f path mode = (.ok fd, f')) : ∃ i, P.OpenFor path f f' fd i := by
  obtain ⟨hnone, i, hlookup, hkind, hempty, hopen⟩ := P.openNew_ok h
  exact ⟨i, hlookup, hopen, .inl ⟨hnone, hkind, hempty⟩⟩

/-- A file that is there is opened after a call that was to make it. -/
theorem OpenFor.openOld {path : Path} {f g f' : σ} {mode : UInt32} {e : Errno} {fd : Nat}
    (hnew : fs.openNew f path mode = (.error e, g)) (h : fs.openOld g path = (.ok fd, f')) :
    ∃ i, P.OpenFor path f f' fd i := by
  obtain ⟨hl, hk, hc⟩ := P.openNew_error hnew
  obtain ⟨⟨hl', hk', hc'⟩, i, hlookup, hdir, hopen⟩ := P.openOld_ok h
  refine ⟨i, by rw [hl', hlookup], hopen, .inr ⟨by rw [← hl, hlookup], by rwa [← hk], ?_, ?_⟩⟩
  · rw [hk', hk]
  · rw [hc', hc]

end Posix

variable (fs) in
/-- **The files as they are when the path is opened**: the directories above it are made only
if the first call does not find them. -/
def filesOpened (files : σ) (path : Path) (mode : UInt32) : σ :=
  match fs.openNew files path mode with
  | (.error .enoent, files) => mkdirs fs path files
  | _ => files

/-- **The file is new, or it is the one that was left.** -/
theorem openTarget_ok (P : Posix fs) {f f' : σ} {path : Path} {mode : UInt32} {fd : Nat}
    (h : openTarget fs f path mode = (.ok fd, f')) :
    ∃ i, P.OpenFor path (filesOpened fs f path mode) f' fd i := by
  rcases hnew : fs.openNew f path mode with ⟨e | fd₁, f₁⟩
  · rw [openTarget, hnew] at h
    rw [filesOpened, hnew]
    cases e with
    | enoent =>
        rcases hnew₂ : fs.openNew (mkdirs fs path f₁) path mode with ⟨e | fd₂, f₂⟩
        · dsimp only at h
          rw [hnew₂] at h
          cases e with
          | enoent => cases h
          | eexist => exact Posix.OpenFor.openOld hnew₂ h
          | other n => cases h
        · dsimp only at h
          rw [hnew₂] at h
          cases h
          exact Posix.OpenFor.openNew hnew₂
    | eexist => exact Posix.OpenFor.openOld hnew h
    | other n => cases h
  · rw [openTarget, hnew] at h
    rw [filesOpened, hnew]
    cases h
    exact Posix.OpenFor.openNew hnew

/-- Without `..`, the directories that are made bring no file to the path. -/
theorem Posix.Unchanged.filesOpened {P : Posix fs} {path : Path} (hup : ¬Climbs path) (f : σ)
    (mode : UInt32) : P.Unchanged path f (filesOpened fs f path mode) := by
  rw [Adbd.filesOpened]
  split
  · rename_i hnew
    exact (Posix.Unchanged.of_eq (P.openNew_error hnew)).trans (.mkdirs hup _)
  · exact .refl path f

/-! ### Writing -/

/-- **A push under way**: `fd` is open on file `i` at the path, behind the bytes written over
those the file had. -/
structure Posix.Writing (P : Posix fs) (path : Path) (fd i : Nat) (k : FileKind)
    (old : List UInt8) (f : σ) (written : List UInt8) : Prop where
  lookup : P.lookup f path = some i
  kind : P.kind f i = k
  opened : P.opened f fd = some (i, written.length)
  contents : k = .regular → P.contents f i = written ++ old.drop written.length

/-- Bytes that are stored. -/
theorem Posix.Writing.store {P : Posix fs} {path : Path} {fd i : Nat} {k : FileKind}
    {old written : List UInt8} {f : σ} (h : P.Writing path fd i k old f written)
    (bs : List UInt8) :
    P.Writing path fd i k old (fs.store f fd bs) (written ++ bs) := by
  obtain ⟨hnames, hkinds⟩ := P.store_names f fd bs
  obtain ⟨hopened, hbytes⟩ := P.store_bytes bs h.opened
  refine ⟨by rw [hnames, h.lookup], by rw [hkinds, h.kind],
    by rw [hopened, List.length_append], ?_⟩
  intro hk
  have hold := h.contents hk
  rw [hbytes (h.kind.trans hk) (by rw [hold, List.length_append]; omega), hold]
  simp [List.drop_append, List.drop_drop]

/-- What a read gives is the start of the input. -/
theorem SyncState.read_some {s s₁ : SyncState σ} {n : Nat} {bs start rest : List UInt8}
    (hin : s.input = start ++ rest) (hn : start.length = n) (h : s.read n = some (bs, s₁)) :
    bs = start ∧ ∃ left, s₁ = { s with input := rest, calls := left } := by
  rw [SyncState.read] at h
  split at h
  · rename_i b r left hgot
    obtain ⟨happ, hlen, -⟩ := readx_takes s.calls n s.input b r left hgot
    cases h
    rw [hin] at happ
    obtain ⟨rfl, rfl⟩ := List.append_inj happ (hn.trans hlen.symm)
    exact ⟨rfl, left, rfl⟩
  · cases h
  · cases h

theorem SyncState.read_out {s s₁ : SyncState σ} {n : Nat} {bs : List UInt8}
    (h : s.read n = some (bs, s₁)) : s₁.out = s.out := by
  rw [SyncState.read] at h
  split at h
  · cases h
    rfl
  · cases h
  · cases h

/-- A message that could be stored. -/
theorem Posix.Writing.storeChunk {P : Posix fs} {path : Path} {fd fd' i : Nat} {k : FileKind}
    {old written c : List UInt8} {s s' : SyncState σ}
    (h : P.Writing path fd i k old s.files written)
    (hs : storeChunk fs path (some fd) s c = (some fd', s')) :
    fd' = fd ∧ P.Writing path fd i k old s'.files (written ++ c) := by
  rw [Adbd.storeChunk] at hs
  rcases hw : writeFile fs s.files fd c with ⟨e | e, files⟩
  · rw [hw] at hs
    cases hs
    refine ⟨rfl, ?_⟩
    rw [writeFile] at hw
    obtain ⟨hput, rfl⟩ := Prod.mk.inj hw
    have hok : (writex (fs.writeCalls s.files fd c).1.1 c).ok = true := by
      by_contra hne
      rw [if_neg hne] at hput
      cases hput
    obtain ⟨hl, hk, hc, ho⟩ := P.writeCalls_keeps s.files fd c
    have hcalls : P.Writing path fd i k old (fs.writeCalls s.files fd c).2 written :=
      ⟨by rw [hl, h.lookup], by rw [hk, h.kind], by rw [ho, h.opened],
        by rw [hc]; exact h.contents⟩
    rw [((writex_writes _ c).ok_iff).mp hok]
    exact hcalls.store c
  · rw [hw] at hs
    cases hs

variable (fs) in
/-- Nothing is open again after an error. -/
theorem sendFileLoop_closed (path : Path) (n : Nat) (s : SyncState σ) (fd : Nat) (t : UInt32) :
    (sendFileLoop fs path n none s).1 ≠ .done (some fd) t := by
  have hfailed : SendEnd.failed none ≠ .done (some fd) t := SendEnd.noConfusion
  have hdone (u : UInt32) : SendEnd.done none u ≠ .done (some fd) t := by simp
  induction n generalizing s with
  | zero => exact hfailed
  | succ n ih =>
      rw [sendFileLoop]
      split
      · exact hfailed
      · split
        · split
          · exact hdone _
          · exact hfailed
        · split
          · exact hfailed
          · split
            · exact hfailed
            · exact ih _

/-- A loop that ends at `DONE` could read the header in front of it. -/
theorem sendFileLoop_header {path : Path} {n : Nat} {fd fd' : Option Nat} {s s' : SyncState σ}
    {id size t : UInt32} {rest : List UInt8} (hin : s.input = syncHeader id size ++ rest)
    (h : sendFileLoop fs path n fd s = (.done fd' t, s')) :
    ∃ m left, n = m + 1 ∧
      s.read 8 = some (syncHeader id size, { s with input := rest, calls := left }) := by
  cases n with
  | zero => cases h
  | succ m =>
      rw [sendFileLoop] at h
      cases hr : s.read 8 with
      | none =>
          rw [hr] at h
          cases h
      | some r =>
          obtain ⟨hdr, s₁⟩ := r
          obtain ⟨rfl, left, rfl⟩ := SyncState.read_some hin (length_syncHeader ..) hr
          exact ⟨m, left, rfl, rfl⟩

/-- At `DONE` the loop ends. -/
theorem sendFileLoop_at_done {path : Path} {n : Nat} {fd fd' : Option Nat} {s s' : SyncState σ}
    {mtime t : UInt32} {rest : List UInt8} (hin : s.input = syncHeader ID_DONE mtime ++ rest)
    (h : sendFileLoop fs path n fd s = (.done fd' t, s')) : fd' = fd ∧ s'.files = s.files := by
  obtain ⟨m, left, rfl, hr⟩ := sendFileLoop_header hin h
  rw [sendFileLoop, hr] at h
  dsimp only at h
  rw [headerId_syncHeader, if_pos (by decide), if_pos rfl] at h
  cases h
  exact ⟨rfl, rfl⟩

/-- At a message the loop goes on behind it. -/
theorem sendFileLoop_at_data {path : Path} {n : Nat} {fd fd' : Option Nat} {s s' : SyncState σ}
    {t : UInt32} {c rest : List UInt8} (hc : c.length ≤ SYNC_DATA_MAX)
    (hin : s.input = syncNamed ID_DATA c ++ rest)
    (h : sendFileLoop fs path n fd s = (.done fd' t, s')) :
    ∃ m, ∃ s₁ : SyncState σ, s₁.input = rest ∧ s₁.files = s.files ∧
      sendFileLoop fs path m (storeChunk fs path fd s₁ c).1 (storeChunk fs path fd s₁ c).2 =
        (.done fd' t, s') := by
  rw [syncNamed, List.append_assoc] at hin
  obtain ⟨m, left, rfl, hr⟩ := sendFileLoop_header hin h
  rw [sendFileLoop, hr] at h
  dsimp only at h
  rw [headerId_syncHeader, headerSize_syncHeader, toNat_ofNat_length hc, if_neg (by simp),
    if_neg (by omega)] at h
  split at h
  · cases h
  · rename_i bs s₂ hr₂
    obtain ⟨rfl, left₂, rfl⟩ := SyncState.read_some rfl rfl hr₂
    exact ⟨m, ({ s with input := rest, calls := left₂ } : SyncState σ).fill bs, rfl, rfl, h⟩

/-- **The messages go over the start of the file**, if the file is open at the end. -/
theorem sendFileLoop_okay {P : Posix fs} {path : Path} {fd fd' i : Nat} {k : FileKind}
    {old : List UInt8}
    {chunks : List (List UInt8)} (hc : ∀ c ∈ chunks, c.length ≤ SYNC_DATA_MAX)
    {mtime t : UInt32}
    {rest : List UInt8} {n : Nat} {s s' : SyncState σ} {written : List UInt8}
    (hin : s.input = SyncRequest.dataMessages chunks ++ (syncHeader ID_DONE mtime ++ rest))
    (hw : P.Writing path fd i k old s.files written)
    (h : sendFileLoop fs path n (some fd) s = (.done (some fd') t, s')) :
    fd' = fd ∧ P.Writing path fd i k old s'.files (written ++ chunks.flatten) := by
  induction chunks generalizing n s written with
  | nil =>
      obtain ⟨hfd, hfiles⟩ := sendFileLoop_at_done hin h
      rw [List.flatten_nil, List.append_nil, hfiles]
      exact ⟨Option.some.inj hfd, hw⟩
  | cons c chunks ih =>
      rw [SyncRequest.dataMessages, List.flatMap_cons, List.append_assoc] at hin
      obtain ⟨m, s₁, hin₁, hfiles₁, hrun⟩ := sendFileLoop_at_data (hc c (by simp)) hin h
      have hin₂ := (storeChunk_spec fs path (some fd) s₁ c).1.trans hin₁
      rw [← hfiles₁] at hw
      rcases hchunk : storeChunk fs path (some fd) s₁ c with ⟨fd₂ | fd₂, s₂⟩
      · rw [hchunk] at hrun
        exact absurd (congrArg Prod.fst hrun) (sendFileLoop_closed fs path m s₂ fd' t)
      · obtain ⟨rfl, hw₂⟩ := hw.storeChunk hchunk
        rw [hchunk] at hrun hin₂
        rw [List.flatten_cons, ← List.append_assoc]
        exact ih (fun x hx => hc x (by simp [hx])) hin₂ hw₂ hrun

variable (fs) in
/-- The loop sends nothing but errors. -/
theorem sendFileLoop_out (path : Path) (n : Nat) (fd : Option Nat) (s : SyncState σ) :
    ∃ fails : List (List UInt8),
      (sendFileLoop fs path n fd s).2.out = s.out ++ fails.map .fail := by
  induction n generalizing fd s with
  | zero => exact ⟨[], by simp [sendFileLoop]⟩
  | succ n ih =>
      rw [sendFileLoop]
      cases hr : s.read 8 with
      | none => exact ⟨[], by simp⟩
      | some r =>
          obtain ⟨hdr, s₁⟩ := r
          rw [← SyncState.read_out hr]
          dsimp only
          split
          · split
            · exact ⟨[], by simp⟩
            · exact ⟨[_], rfl⟩
          · split
            · exact ⟨[_], rfl⟩
            · split
              · exact ⟨[], by simp⟩
              · rename_i bs s₂ hr₂
                rw [← SyncState.read_out hr₂]
                obtain ⟨fails, hfails⟩ := ih (storeChunk fs path fd (s₂.fill bs) bs).1
                  (storeChunk fs path fd (s₂.fill bs) bs).2
                obtain ⟨-, -, ⟨-, hout⟩ | ⟨-, -, reason, hout⟩⟩ :=
                  storeChunk_spec fs path fd (s₂.fill bs) bs
                · exact ⟨fails, by rw [hfails, hout]; rfl⟩
                · exact ⟨reason :: fails, by rw [hfails, hout]; simp [SyncState.fill]⟩

/-- A reply that is `OKAY` is not an error. -/
theorem okay_ne_fails {out : List SyncReply} {fails : List (List UInt8)}
    (h : out ++ fails.map .fail = out ++ [.okay]) : False := by
  have hokay : SyncReply.okay ∈ fails.map .fail := by
    rw [List.append_cancel_left h]
    exact List.mem_singleton_self _
  obtain ⟨reason, -, heq⟩ := List.mem_map.mp hokay
  cases heq

/-- A file that was answered with `OKAY` was open up to `DONE`. -/
theorem handleSendFile_okay {s : SyncState σ} {path : Path} {mode : UInt32}
    (hok : (handleSendFile fs s path mode).2.out = s.out ++ [.okay]) :
    ∃ fd files fd' t s', openTarget fs s.files path mode = (.ok fd, files) ∧
      sendFileLoop fs path (s.input.length + 1) (some fd) { s with files := files } =
        (.done (some fd') t, s') ∧
      (handleSendFile fs s path mode).2.files = fs.utime (fs.close s'.files fd') path t := by
  rw [handleSendFile] at hok ⊢
  rcases ho : openTarget fs s.files path mode with ⟨e | fd, files⟩
  · rw [ho] at hok
    obtain ⟨fails, hout⟩ := sendFileLoop_out fs path (s.input.length + 1) none
      (failErrno fs { s with files := files } e)
    have hout' : (sendFileLoop fs path (s.input.length + 1) none
        (failErrno fs { s with files := files } e)).2.out =
        s.out ++ (fs.strerror e :: fails).map .fail := hout.trans (List.append_assoc ..)
    have hclosed : ∀ fd t, _ ≠ _ :=
      fun fd t => sendFileLoop_closed fs path (s.input.length + 1)
      (failErrno fs { s with files := files } e) fd t
    dsimp only at hok
    split at hok <;> rename_i hrun <;> rw [hrun] at hout' hclosed
    · exact absurd rfl (hclosed _ _)
    · exact absurd (hout'.symm.trans hok) okay_ne_fails
    · exact absurd (hout'.symm.trans hok) okay_ne_fails
    · exact absurd (hout'.symm.trans hok) okay_ne_fails
  · rw [ho] at hok
    obtain ⟨fails, hout⟩ := sendFileLoop_out fs path (s.input.length + 1) (some fd)
      { s with files := files }
    dsimp only at hok ⊢
    split at hok <;> rename_i hrun <;> rw [hrun] at hout
    · exact ⟨fd, files, _, _, _, rfl, hrun, rfl⟩
    · exact absurd (hout.symm.trans hok) okay_ne_fails
    · exact absurd (hout.symm.trans hok) okay_ne_fails
    · exact absurd (hout.symm.trans hok) okay_ne_fails

/-- The bytes written are all that is there exactly if the file had no more. -/
theorem Posix.Writing.stored_iff {P : Posix fs} {path : Path} {fd i : Nat} {k : FileKind}
    {old written : List UInt8} {f f' : σ} (h : P.Writing path fd i k old f written)
    (hf : P.lookup f' = P.lookup f ∧ P.kind f' = P.kind f ∧ P.contents f' = P.contents f) :
    P.Stored f' path written ↔ k = .regular ∧ old.length ≤ written.length := by
  obtain ⟨hlookup, hkind, hcontents⟩ := hf
  constructor
  · rintro ⟨j, hj, hreg, hbytes⟩
    rw [hlookup, h.lookup] at hj
    obtain rfl := Option.some.inj hj
    rw [hkind, h.kind] at hreg
    rw [hcontents, h.contents hreg] at hbytes
    have hrest : old.drop written.length = [] := List.append_right_eq_self.mp hbytes
    exact ⟨hreg, List.drop_eq_nil_iff.mp hrest⟩
  · rintro ⟨hreg, hlen⟩
    refine ⟨i, by rw [hlookup, h.lookup], by rw [hkind, h.kind, hreg], ?_⟩
    rw [hcontents, h.contents hreg, List.drop_eq_nil_of_le hlen, List.append_nil]

/-- The file that is opened is the one that may be too long. -/
theorem Posix.OpenFor.noLonger_iff {P : Posix fs} {path : Path} {f f' : σ} {fd i : Nat}
    (h : P.OpenFor path f f' fd i) (n : Nat) :
    P.NoLonger f path n ↔ P.kind f' i = .regular ∧ (P.contents f' i).length ≤ n := by
  obtain ⟨-, -, ⟨hnone, hkind, hempty⟩ | ⟨hsome, -, hkind, hcontents⟩⟩ := h
  · have hnew : P.NoLonger f path n := fun j hj => absurd (hnone.symm.trans hj) (by simp)
    exact ⟨fun _ => ⟨hkind, by simp [hempty]⟩, fun _ => hnew⟩
  · rw [hkind, hcontents]
    constructor
    · intro hno
      exact hno i hsome
    · intro hi j hj
      obtain rfl := Option.some.inj (hsome.symm.trans hj)
      exact hi

/-- A file that is opened was there before, if the path was only unchanged since. -/
theorem Posix.OpenFor.noLonger_before {P : Posix fs} {path : Path} {f g f' : σ} {fd i : Nat}
    (h : P.OpenFor path g f' fd i) (hg : P.Unchanged path f g) (n : Nat) :
    P.NoLonger g path n ↔ P.NoLonger f path n := by
  constructor
  · intro hno j hj
    obtain ⟨hj', hkind, hcontents⟩ := hg.keeps j hj
    rw [← hkind, ← hcontents]
    exact hno j hj'
  · intro hno j hj
    obtain ⟨-, -, ⟨hnone, -⟩ | ⟨hsome, hdir, -⟩⟩ := h
    · exact absurd (hnone.symm.trans hj) (by simp)
    · obtain rfl := Option.some.inj (hsome.symm.trans hj)
      have hf := (hg.made i hj).resolve_right hdir
      obtain ⟨-, hkind, hcontents⟩ := hg.keeps i hf
      rw [hkind, hcontents]
      exact hno i hf

/-- **The bytes of a push that is answered with `OKAY` were stored exactly if no longer file
was at the path when it was opened**, and they are what a request for the path then gets.
Without `..` in the path, such a file is one that was left when the path had been removed. -/
theorem push_stores_iff (P : Posix fs) (s : SyncState σ) (path : Path) (mode : UInt32)
    (hmode : sIsLnk mode = false) (chunks : List (List UInt8))
    (hc : ∀ c ∈ chunks, c.length ≤ SYNC_DATA_MAX) (mtime : UInt32) (rest : List UInt8)
    (hin : s.input = SyncRequest.dataMessages chunks ++ (syncHeader ID_DONE mtime ++ rest))
    (hok : (doSend fs s (path ++ 44 :: decimal mode.toNat)).2.out = s.out ++ [.okay]) :
    ((P.Stored (doSend fs s (path ++ 44 :: decimal mode.toNat)).2.files path chunks.flatten ∧
        Received fs (doSend fs s (path ++ 44 :: decimal mode.toNat)).2.files path
          chunks.flatten) ↔
      P.NoLonger (filesOpened fs (fs.unlink s.files path) path
          (copyUserBits (mode &&& 0x1FF))) path chunks.flatten.length) ∧
    (¬Climbs path →
      (P.NoLonger (filesOpened fs (fs.unlink s.files path) path
            (copyUserBits (mode &&& 0x1FF))) path chunks.flatten.length ↔
        P.NoLonger (fs.unlink s.files path) path chunks.flatten.length)) := by
  rw [doSend, sendTarget_decimal] at hok ⊢
  dsimp only at hok ⊢
  rw [hmode, if_neg (by simp)] at hok ⊢
  obtain ⟨fd, files, fd', t, s', hopen, hrun, hfiles⟩ := handleSendFile_okay hok
  obtain ⟨i, hopen'⟩ := openTarget_ok P hopen
  have hw : P.Writing path fd i (P.kind files i) (P.contents files i) files [] :=
    ⟨hopen'.1, rfl, hopen'.2.1, fun _ => rfl⟩
  obtain ⟨rfl, hw'⟩ := sendFileLoop_okay hc (s := { s with files := files }) hin hw hrun
  have hlast : P.lookup (fs.utime (fs.close s'.files fd') path t) = P.lookup s'.files ∧
      P.kind (fs.utime (fs.close s'.files fd') path t) = P.kind s'.files ∧
      P.contents (fs.utime (fs.close s'.files fd') path t) = P.contents s'.files := by
    obtain ⟨hl, hk, hb⟩ := P.close_keeps s'.files fd'
    obtain ⟨hl', hk', hb'⟩ := P.utime_keeps (fs.close s'.files fd') path t
    exact ⟨hl'.trans hl, hk'.trans hk, hb'.trans hb⟩
  rw [List.nil_append] at hw'
  constructor
  · rw [hfiles, hopen'.noLonger_iff, ← hw'.stored_iff hlast]
    exact ⟨fun h => h.1, fun h => ⟨h, h.received⟩⟩
  · intro hup
    exact hopen'.noLonger_before (.filesOpened hup _ _) _

/-! ### A file that stays -/

/-- One directory of regular files, from which files can be removed or not. -/
structure Disk where
  names : Path → Option Nat
  data : Nat → List UInt8
  positions : Nat → Option (Nat × Nat)
  fresh : Nat
  removable : Bool

/-- The calls on a disk. A file is read at once. -/
def diskFiles : FileSystem Disk where
  lstat d _ := (none, d)
  opendir d _ := (none, d)
  openNew d path _ :=
    match d.names path with
    | some _ => (.error .eexist, d)
    | none => (.ok d.fresh,
        { d with
          names := Function.update d.names path (some d.fresh)
          data := Function.update d.data d.fresh []
          positions := Function.update d.positions d.fresh (some (d.fresh, 0))
          fresh := d.fresh + 1 })
  openOld d path :=
    match d.names path with
    | none => (.error .enoent, d)
    | some i => (.ok d.fresh,
        { d with
          positions := Function.update d.positions d.fresh (some (i, 0))
          fresh := d.fresh + 1 })
  openRead d path :=
    match d.names path with
    | none => (.error .enoent, d)
    | some i => (.ok [.data (d.data i)], d)
  writeCalls d _ _ := (([], .other 5), d)
  store d fd bs :=
    match d.positions fd with
    | none => d
    | some (i, k) =>
        { d with
          data := Function.update d.data i
            ((d.data i).take k ++ bs ++ (d.data i).drop (k + bs.length))
          positions := Function.update d.positions fd (some (i, k + bs.length)) }
  close d _ := d
  unlink d path :=
    if d.removable then { d with names := Function.update d.names path none } else d
  mkdir d _ := (some (.other 1), d)
  symlink d _ _ := (some (.other 1), d)
  utime d _ _ := d
  strerror _ := []

/-- The calls on a disk are those of POSIX. -/
def diskPosix : Posix diskFiles where
  lookup := Disk.names
  kind _ _ := .regular
  contents := Disk.data
  opened := Disk.positions
  openNew_ok {f f' path mode fd} h := by
    dsimp only [diskFiles] at h
    cases hn : f.names path with
    | some i =>
        rw [hn] at h
        cases h
    | none =>
        rw [hn] at h
        cases h
        exact ⟨rfl, f.fresh, by simp, rfl, by simp, by simp⟩
  openNew_error {f f' path mode e} h := by
    dsimp only [diskFiles] at h
    cases hn : f.names path with
    | some i =>
        rw [hn] at h
        cases h
        exact ⟨rfl, rfl, rfl⟩
    | none =>
        rw [hn] at h
        cases h
  openOld_ok {f f' path fd} h := by
    dsimp only [diskFiles] at h
    cases hn : f.names path with
    | none =>
        rw [hn] at h
        cases h
    | some i =>
        rw [hn] at h
        cases h
        exact ⟨⟨rfl, rfl, rfl⟩, i, rfl, nofun, by simp⟩
  mkdir_made _ h := .inl h
  mkdir_keeps h := ⟨h, rfl, rfl⟩
  writeCalls_keeps _ _ _ := ⟨rfl, rfl, rfl, rfl⟩
  store_names f fd bs := by
    dsimp only [diskFiles]
    split <;> exact ⟨rfl, rfl⟩
  store_bytes {f fd i k} bs h := by
    dsimp only [diskFiles]
    rw [h]
    exact ⟨by simp, fun _ _ => by simp⟩
  close_keeps _ _ := ⟨rfl, rfl, rfl⟩
  utime_keeps _ _ _ := ⟨rfl, rfl, rfl⟩
  openRead_ok {f f' path rs i} h hi _ _ := by
    dsimp only [diskFiles] at h
    rw [hi] at h
    cases h
    simp [readBytes]

/-- A disk on which `/f` is a file with four bytes. -/
def fourBytes (removable : Bool) : Disk where
  names path := if path = ascii "/f".toList then some 0 else none
  data _ := ascii "abcd".toList
  positions _ := none
  fresh := 1
  removable := removable

/-- `xy` is pushed to `/f`. -/
def pushTwo (removable : Bool) : SyncState Disk :=
  { input := SyncRequest.dataMessages [ascii "xy".toList] ++ (syncHeader ID_DONE 7 ++ [])
    files := fourBytes removable }

theorem push_stores_removable :
    diskPosix.Stored
        (doSend diskFiles (pushTwo true)
          (ascii "/f".toList ++ 44 :: decimal (33188 : UInt32).toNat)).2.files
        (ascii "/f".toList) (ascii "xy".toList) ∧
      Received diskFiles
        (doSend diskFiles (pushTwo true)
          (ascii "/f".toList ++ 44 :: decimal (33188 : UInt32).toNat)).2.files
        (ascii "/f".toList) (ascii "xy".toList) :=
  (push_stores_iff diskPosix (pushTwo true) (ascii "/f".toList) 33188 (by decide)
    [ascii "xy".toList] (by decide) 7 [] rfl (by decide +kernel)).1.mpr
    (fun i hi => absurd hi
      (by simp [diskPosix, diskFiles, filesOpened, pushTwo, fourBytes]))

/-- **A file that stays keeps its end**: the push is answered with `OKAY`, and `/f` has the two
bytes that were sent and two of those it had. -/
theorem push_leaves_rest :
    (doSend diskFiles (pushTwo false)
      (ascii "/f".toList ++ 44 :: decimal (33188 : UInt32).toNat)).2.out = [.okay] ∧
      (doRecv diskFiles
          { input := []
            files := (doSend diskFiles (pushTwo false)
              (ascii "/f".toList ++ 44 :: decimal (33188 : UInt32).toNat)).2.files }
          (ascii "/f".toList)).2.out = [.data (ascii "xycd".toList), .done] ∧
      ¬diskPosix.Stored
        (doSend diskFiles (pushTwo false)
          (ascii "/f".toList ++ 44 :: decimal (33188 : UInt32).toNat)).2.files
        (ascii "/f".toList) (ascii "xy".toList) := by
  refine ⟨by decide +kernel, by decide +kernel, ?_⟩
  rintro ⟨i, hi, -, hbytes⟩
  have h0 : (diskPosix.lookup (doSend diskFiles (pushTwo false)
      (ascii "/f".toList ++ 44 :: decimal (33188 : UInt32).toNat)).2.files
        (ascii "/f".toList)) = some 0 := by
    decide +kernel
  rw [h0] at hi
  cases hi
  revert hbytes
  decide +kernel

end Adbd
