import Adbd.AuthGate
import Adbd.Base64
import Adbd.Wire
import Mathlib.Data.List.TakeWhile

/-!
# The Keys of the Hosts

`adb_auth_reload_keys` and what it calls: the lines of the key files, each with a public key in
Base64, up to the first blank or tab. Which lines are keys, and when a signature is accepted,
is said in terms of the texts of `Adbd.Sextets`. Lines that are longer than the buffer of
`fgets` come in pieces, and every piece is taken for a line.

## Main definitions

* `RSAPublicKey`: a key, with its image in memory.
* `fgetsLines`: the pieces that `fgets` returns.
* `readKeys`, `adbAuthReloadKeys`: the functions, with a count of the keys that are allocated.
* `Spells`: a line holds a key.

## Main results

* `readKey_eq_some`: which lines are taken for keys.
* `auth_verify_iff`: when a signature is accepted.
* `reload_written`: a file of keys is loaded as it was written.
-/

namespace Adbd

open CString Sextets

variable {o : ByteOrder} {line bs : List UInt8} {n : Nat}

/-! ### Keys in memory -/

/-- `RSANUMWORDS`. -/
def RSANUMWORDS : Nat := 64

/-- `RSAPublicKey`. -/
structure RSAPublicKey where
  len : UInt32
  n0inv : UInt32
  n : Vector UInt32 RSANUMWORDS
  rr : Vector UInt32 RSANUMWORDS
  exponent : UInt32
deriving DecidableEq

/-- `sizeof(RSAPublicKey)`. -/
def RSAPublicKey.size : Nat := 524

/-- The words of a piece of memory. -/
def loadWords (o : ByteOrder) (k : Nat) (bs : List UInt8) : Vector UInt32 k :=
  Vector.ofFn fun i => loadWord o (bs.drop (4 * i))

/-- The bytes of words. -/
def storeWords (o : ByteOrder) {k : Nat} (ws : Vector UInt32 k) : List UInt8 :=
  ws.toList.flatMap (storeWord o)

/-- A key in memory. -/
def RSAPublicKey.image (o : ByteOrder) (key : RSAPublicKey) : List UInt8 :=
  storeWord o key.len ++
    (storeWord o key.n0inv ++ (storeWords o key.n ++ (storeWords o key.rr ++
    storeWord o key.exponent)))

/-- The key at the start of a piece of memory. -/
def RSAPublicKey.load (o : ByteOrder) (bs : List UInt8) : RSAPublicKey where
  len := loadWord o bs
  n0inv := loadWord o (bs.drop 4)
  n := loadWords o RSANUMWORDS (bs.drop 8)
  rr := loadWords o RSANUMWORDS (bs.drop 264)
  exponent := loadWord o (bs.drop 520)

/-! ### Reading the files -/

/-- The pieces that `fgets` returns with a buffer for `room` characters and a terminator, where
`got` was read of the first: each ends with a newline, with the buffer or with the file. -/
def fgetsLines (room : Nat) : List UInt8 → List UInt8 → List (List UInt8)
  | [], got => if got = [] then [] else [got]
  | b :: file, got =>
      if b = 10 ∨ got.length + 1 = room then (got ++ [b]) :: fgetsLines room file []
      else fgetsLines room file (got ++ [b])

/-- The string in the buffer after `strpbrk` has cut it at the first blank or tab. -/
def keyText (line : List UInt8) : List UInt8 := (cstr line).takeWhile fun b => b ≠ 32 ∧ b ≠ 9

/-- The loop of `read_keys` on one line: the key, if it is taken. -/
def readKey (o : ByteOrder) (line : List UInt8) : Option RSAPublicKey :=
  let ret := (adbB64Pton (keyText line) (RSAPublicKey.size + 4)).run (Buf.ofList [])
  if ret.1 ≠ some RSAPublicKey.size then none
  else
    let key := RSAPublicKey.load o (contents ret.2 RSAPublicKey.size)
    if key.len.toNat ≠ RSANUMWORDS then none else some key

/-- A file that can be opened, and which calls of `calloc` succeed while it is read. -/
structure KeyFile where
  content : List UInt8
  calloc : Nat → Bool

/-- `key_list`, and how many keys are allocated. -/
structure LoadedKeys where
  keys : List RSAPublicKey := []
  live : Nat := 0

/-- The loop of `read_keys` from the `i`-th line on. -/
def readKeysFrom (o : ByteOrder) (calloc : Nat → Bool) :
    Nat → List (List UInt8) → LoadedKeys → LoadedKeys
  | _, [], list => list
  | i, line :: lines, list =>
      if calloc i = false then list
      else
        let list := { list with live := list.live + 1 }
        match readKey o line with
        | none => readKeysFrom o calloc (i + 1) lines { list with live := list.live - 1 }
        | some key => readKeysFrom o calloc (i + 1) lines
            { list with keys := list.keys ++ [key] }

/-- `read_keys`, unless its buffer or the file is missing. -/
def readKeys (o : ByteOrder) (file : Option KeyFile) (list : LoadedKeys) : LoadedKeys :=
  match file with
  | none => list
  | some f => readKeysFrom o f.calloc 0 (fgetsLines (MAX_PAYLOAD - 1) f.content []) list

/-- `free_keys`. -/
def freeKeys (list : LoadedKeys) : LoadedKeys where
  keys := []
  live := list.live - list.keys.length

/-- `key_paths`: `/adb_keys` and `/data/misc/adb/adb_keys`. -/
inductive KeyPath
  | root
  | data
deriving DecidableEq, Repr

def keyPaths : List KeyPath := [.root, .data]

/-- `adb_auth_reload_keys`, where `stat` and `fopen` find these files. -/
def adbAuthReloadKeys (o : ByteOrder) (files : KeyPath → Option KeyFile) (list : LoadedKeys) :
    LoadedKeys :=
  keyPaths.foldl (fun list path => readKeys o (files path) list) (freeKeys list)

/-! ### Keys and their images -/

theorem length_storeWords {k : Nat} (ws : Vector UInt32 k) :
    (storeWords o ws).length = 4 * k := by
  rw [storeWords, List.length_flatMap]
  simp [Nat.mul_comm]

/-- The `i`-th of the words that were stored. -/
theorem drop_flatMap_storeWord (ws : List UInt32) (i : Nat) (tail : List UInt8) :
    (ws.flatMap (storeWord o) ++ tail).drop (4 * i) =
      (ws.drop i).flatMap (storeWord o) ++ tail.drop (4 * (i - ws.length)) := by
  induction ws generalizing i with
  | nil => simp
  | cons w ws ih =>
      cases i with
      | zero => simp
      | succ i =>
          have hlen : 4 * (i + 1) = (storeWord o w).length + 4 * i := by
            rw [length_storeWord]
            omega
          rw [List.flatMap_cons, List.append_assoc, hlen, ← List.drop_drop, List.drop_left, ih]
          simp

/-- Words are loaded as they were stored. -/
theorem loadWords_storeWords {k : Nat} (ws : Vector UInt32 k) (tail : List UInt8) :
    loadWords o k (storeWords o ws ++ tail) = ws := by
  refine Vector.ext fun i hi => ?_
  rw [loadWords, Vector.getElem_ofFn, storeWords, drop_flatMap_storeWord,
    List.drop_eq_getElem_cons (by simpa using hi), List.flatMap_cons, List.append_assoc,
    loadWord_storeWord]
  simp

theorem RSAPublicKey.length_image (key : RSAPublicKey) : (key.image o).length = size := by
  simp only [image, List.length_append, length_storeWord]
  rw [length_storeWords, length_storeWords]
  rfl

/-- A key is loaded as it was stored. -/
theorem RSAPublicKey.load_image (key : RSAPublicKey) : load o (key.image o) = key := by
  have h4 : (key.image o).drop 4 = storeWord o key.n0inv ++ (storeWords o key.n ++
      (storeWords o key.rr ++ storeWord o key.exponent)) :=
    List.drop_left' (length_storeWord o key.len)
  have h8 : (key.image o).drop 8 = storeWords o key.n ++ (storeWords o key.rr ++
      storeWord o key.exponent) := by
    rw [show 8 = 4 + 4 from rfl, ← List.drop_drop, h4]
    exact List.drop_left' (length_storeWord o key.n0inv)
  have h264 : (key.image o).drop 264 = storeWords o key.rr ++ storeWord o key.exponent := by
    rw [show 264 = 8 + 256 from rfl, ← List.drop_drop, h8]
    exact List.drop_left' (length_storeWords key.n)
  have h520 : (key.image o).drop 520 = storeWord o key.exponent := by
    rw [show 520 = 264 + 256 from rfl, ← List.drop_drop, h264]
    exact List.drop_left' (length_storeWords key.rr)
  have hexp : loadWord o (storeWord o key.exponent) = key.exponent := by
    simpa using loadWord_storeWord o key.exponent []
  rw [load, h4, h8, h264, h520, hexp, loadWord_storeWord, loadWords_storeWords,
    loadWords_storeWords, image, loadWord_storeWord]

/-! ### Lines -/

/-- What is in a buffer. -/
theorem contents_of_holds {m : Buf} (h : CString.Holds m 0 bs) :
    contents m bs.length = bs := by
  refine List.ext_getElem (by simp [contents]) fun i hi hi' => ?_
  have hb := h i hi'
  rw [Nat.zero_add] at hb
  simp [contents, hb]

/-- The text of a line has no terminator in it. -/
theorem cstr_keyText (line : List UInt8) : cstr (keyText line) = keyText line := by
  refine List.takeWhile_eq_self_iff.mpr fun b hb => ?_
  have hmem : b ∈ cstr line := (List.takeWhile_prefix _).mem hb
  exact List.mem_takeWhile_imp (p := fun b => decide (b ≠ 0)) hmem

/-- **A line holds a key**: up to the first blank or tab, and apart from other white space, it
is the text of the image of a key of the right length. -/
def Spells (o : ByteOrder) (line : List UInt8) (key : RSAPublicKey) : Prop :=
  key.len.toNat = RSANUMWORDS ∧ ∃ bs : List UInt8, bs.length = RSAPublicKey.size ∧
    visible (keyText line) = base64.encode bs ∧ key = RSAPublicKey.load o bs

/-- **Which lines are taken for keys.** -/
theorem readKey_eq_some {key : RSAPublicKey} :
    readKey o line = some key ↔ Spells o line key := by
  obtain ⟨-, hret, hbytes⟩ :=
    b64Pton_spec (keyText line) (RSAPublicKey.size + 4) (Buf.ofList [])
  rw [cstr_keyText] at hret hbytes
  have hroom (bs : List UInt8) (h : bs.length = RSAPublicKey.size) :
      ptonRoom bs ≤ RSAPublicKey.size + 4 := by
    rw [ptonRoom, h]
    decide
  rw [readKey]
  dsimp only
  constructor
  · intro h
    split at h
    · cases h
    · next hsome =>
      obtain ⟨bs, htext, hlen, -⟩ := (hret _).mp (not_not.mp hsome)
      have hloaded : contents _ RSAPublicKey.size = bs :=
        hlen ▸ contents_of_holds (hbytes bs htext (hroom bs hlen))
      rw [hloaded] at h
      split at h
      · cases h
      · next hwords =>
        obtain rfl := Option.some.inj h
        exact ⟨not_not.mp hwords, bs, hlen, htext, rfl⟩
  · rintro ⟨hwords, bs, hlen, htext, rfl⟩
    have hloaded : contents _ RSAPublicKey.size = bs :=
      hlen ▸ contents_of_holds (hbytes bs htext (hroom bs hlen))
    rw [if_neg (not_not.mpr ((hret _).mpr ⟨bs, htext, hlen, hroom bs hlen⟩)), hloaded,
      if_neg (not_not.mpr hwords)]

/-! ### Files -/

/-- The lines for which a key could be allocated. -/
def allocated (calloc : Nat → Bool) : Nat → List (List UInt8) → List (List UInt8)
  | _, [] => []
  | i, line :: lines => if calloc i then line :: allocated calloc (i + 1) lines else []

theorem mem_allocated {calloc : Nat → Bool} {i : Nat} {lines : List (List UInt8)} :
    line ∈ allocated calloc i lines ↔
      ∃ k, lines[k]? = some line ∧ ∀ j ≤ k, calloc (i + j) = true := by
  induction lines generalizing i with
  | nil => simp [allocated]
  | cons l lines ih =>
      rw [allocated]
      split
      · next hc =>
        rw [List.mem_cons, ih]
        constructor
        · rintro (rfl | ⟨k, hk, hall⟩)
          · exact ⟨0, rfl, fun j hj => by rw [Nat.le_zero.mp hj]; exact hc⟩
          · refine ⟨k + 1, hk, fun j hj => ?_⟩
            cases j with
            | zero => exact hc
            | succ j =>
                have hj' := hall j (by omega)
                rwa [Nat.add_right_comm] at hj'
        · rintro ⟨k, hk, hall⟩
          cases k with
          | zero => exact .inl (Option.some.inj hk).symm
          | succ k =>
              refine .inr ⟨k, hk, fun j hj => ?_⟩
              have hj' := hall (j + 1) (by omega)
              rwa [← Nat.add_assoc, Nat.add_right_comm] at hj'
      · next hc =>
        constructor
        · intro h
          cases h
        · rintro ⟨k, -, hall⟩
          exact absurd (hall 0 (Nat.zero_le k)) hc

/-- With memory for all of them, all lines are read. -/
theorem allocated_eq (i : Nat) (lines : List (List UInt8)) :
    allocated (fun _ => true) i lines = lines := by
  induction lines generalizing i with
  | nil => rfl
  | cons l lines ih => rw [allocated, if_pos rfl, ih]

/-- The keys of a file. -/
def KeyFile.keys (o : ByteOrder) (f : KeyFile) : List RSAPublicKey :=
  (allocated f.calloc 0 (fgetsLines (MAX_PAYLOAD - 1) f.content [])).filterMap (readKey o)

/-- What the loop of `read_keys` adds to the list. -/
theorem readKeysFrom_eq (calloc : Nat → Bool) (i : Nat) (lines : List (List UInt8))
    (list : LoadedKeys) : readKeysFrom o calloc i lines list =
      { keys := list.keys ++ (allocated calloc i lines).filterMap (readKey o)
        live := list.live + ((allocated calloc i lines).filterMap (readKey o)).length } := by
  induction lines generalizing i list with
  | nil => simp [readKeysFrom, allocated]
  | cons l lines ih =>
      rw [readKeysFrom, allocated]
      cases hc : calloc i with
      | false => simp
      | true =>
          simp only [if_false, if_true, Bool.true_eq_false]
          cases hk : readKey o l with
          | none =>
              rw [List.filterMap_cons_none hk]
              exact ih _ _
          | some key =>
              rw [List.filterMap_cons_some hk]
              dsimp only
              rw [ih]
              simp only [List.append_assoc, List.singleton_append, List.length_cons,
                LoadedKeys.mk.injEq, true_and]
              omega

/-- **What `adb_auth_reload_keys` leaves**: the keys of the files, and nothing else is
allocated if that was so before. -/
theorem reloadKeys_eq (files : KeyPath → Option KeyFile) {list : LoadedKeys}
    (h : list.live = list.keys.length) : adbAuthReloadKeys o files list =
      { keys := keyPaths.flatMap fun path => (files path).elim [] (KeyFile.keys o)
        live := (keyPaths.flatMap fun path =>
          (files path).elim [] (KeyFile.keys o)).length } := by
  have hread (path : KeyPath) (l : LoadedKeys) : readKeys o (files path) l =
      { keys := l.keys ++ (files path).elim [] (KeyFile.keys o)
        live := l.live + ((files path).elim [] (KeyFile.keys o)).length } := by
    cases files path with
    | none => simp [readKeys]
    | some f => exact readKeysFrom_eq ..
  simp only [adbAuthReloadKeys, keyPaths, List.foldl_cons, List.foldl_nil, hread, freeKeys,
    List.flatMap_cons, List.flatMap_nil, h, Nat.sub_self]
  simp

/-- **When a signature is accepted**: it has the right length, and one of the files holds, in a
line for which there was memory, a key that verifies it. No key is leaked or kept from
before. -/
theorem auth_verify_iff (rsaVerify : RSAPublicKey → List UInt8 → List UInt8 → Bool)
    (files : KeyPath → Option KeyFile) {list : LoadedKeys} (h : list.live = list.keys.length)
    (token sig : List UInt8) (siglen : Nat) :
    (adbAuthReloadKeys o files list).live = (adbAuthReloadKeys o files list).keys.length ∧
      (adbAuthVerify rsaVerify (adbAuthReloadKeys o files list).keys token sig siglen = true ↔
        siglen = RSANUMBYTES ∧ ∃ path f i line key, files path = some f ∧
          (fgetsLines (MAX_PAYLOAD - 1) f.content [])[i]? = some line ∧
          (∀ j ≤ i, f.calloc j = true) ∧ Spells o line key ∧
          rsaVerify key (sig.take siglen) token = true) := by
  rw [reloadKeys_eq files h]
  refine ⟨rfl, ?_⟩
  rw [adbAuthVerify]
  split
  · next hne => exact ⟨fun h => absurd h (by decide), fun h => absurd h.1 hne⟩
  next hlen =>
  have hmem (path : KeyPath) : path ∈ keyPaths := by cases path <;> decide
  rw [List.any_eq_true]
  constructor
  · rintro ⟨key, hkey, hv⟩
    obtain ⟨path, -, hin⟩ := List.mem_flatMap.mp hkey
    cases hf : files path with
    | none => simp [hf] at hin
    | some f =>
        rw [hf] at hin
        obtain ⟨line, hline, hread⟩ := List.mem_filterMap.mp hin
        obtain ⟨i, hi, hall⟩ := mem_allocated.mp hline
        simp only [Nat.zero_add] at hall
        exact ⟨not_not.mp hlen, path, f, i, line, key, hf, hi, hall,
          readKey_eq_some.mp hread, hv⟩
  · rintro ⟨-, path, f, i, line, key, hf, hi, hall, hspells, hv⟩
    refine ⟨key, List.mem_flatMap.mpr ⟨path, hmem path, ?_⟩, hv⟩
    rw [hf]
    refine List.mem_filterMap.mpr ⟨line, mem_allocated.mpr ⟨i, hi, ?_⟩,
      readKey_eq_some.mpr hspells⟩
    simpa only [Nat.zero_add] using hall

/-! ### A file that was written -/

/-- A line with a key and a comment, as the host writes it. -/
def keyLine (o : ByteOrder) (key : RSAPublicKey) (comment : List UInt8) : List UInt8 :=
  base64.encode (key.image o) ++ 32 :: comment

/-- A file of such lines. -/
def keyFile (o : ByteOrder) (entries : List (RSAPublicKey × List UInt8)) : KeyFile where
  content := entries.flatMap fun e => keyLine o e.1 e.2 ++ [10]
  calloc _ := true

/-- A line that fits into the buffer comes in one piece. -/
theorem fgetsLines_line {room : Nat} (got : List UInt8) {rest : List UInt8} (h : 10 ∉ line)
    (hroom : got.length + line.length + 1 ≤ room) :
    fgetsLines room (line ++ 10 :: rest) got =
      (got ++ line ++ [10]) :: fgetsLines room rest [] := by
  induction line generalizing got with
  | nil => simp [fgetsLines]
  | cons b line ih =>
      simp only [List.length_cons] at hroom
      have hb : ¬(b = 10 ∨ got.length + 1 = room) := by
        rintro (rfl | hr)
        · exact h (List.mem_cons_self ..)
        · omega
      rw [List.cons_append, fgetsLines, if_neg hb,
        ih _ (fun hm => h (List.mem_cons_of_mem _ hm))]
      · simp
      · simp only [List.length_append, List.length_singleton]
        omega

/-- The text of a line that was written. -/
theorem keyText_written (bs : List UInt8) (rest : List UInt8) :
    keyText (base64.encode bs ++ 32 :: rest) = base64.encode bs := by
  have hchar (b : UInt8) (hb : b ∈ base64.encode bs) : b ≠ 0 ∧ b ≠ 32 ∧ b ≠ 9 := by
    obtain ⟨hsp, h0⟩ := encode_visible bs b hb
    refine ⟨h0, ?_, ?_⟩
    all_goals
      rintro rfl
      cases hsp
  rw [keyText, cstr, List.takeWhile_append_of_pos fun b hb => by simpa using (hchar b hb).1]
  rw [List.takeWhile_cons_of_pos (by decide), List.takeWhile_append_of_pos fun b hb => by
    simpa using (hchar b hb).2]
  rw [List.takeWhile_cons_of_neg (by decide), List.append_nil]

/-- A line that was written is taken for its key. -/
theorem readKey_written {key : RSAPublicKey} (h : key.len.toNat = RSANUMWORDS)
    (comment : List UInt8) : readKey o (keyLine o key comment ++ [10]) = some key := by
  have hvis : visible (base64.encode (key.image o)) = base64.encode (key.image o) :=
    List.filter_eq_self.mpr fun ch hch => by simp [(encode_visible _ ch hch).1]
  refine readKey_eq_some.mpr ⟨h, key.image o, key.length_image, ?_, key.load_image.symm⟩
  rw [keyLine, List.append_assoc, List.cons_append, keyText_written, hvis]

/-- The lines of a file that was written. -/
theorem fgetsLines_written {entries : List (RSAPublicKey × List UInt8)}
    (h : ∀ e ∈ entries, 10 ∉ e.2 ∧ 700 + 2 + e.2.length < MAX_PAYLOAD) :
    fgetsLines (MAX_PAYLOAD - 1) (keyFile o entries).content [] =
      entries.map fun e => keyLine o e.1 e.2 ++ [10] := by
  induction entries with
  | nil => rfl
  | cons e entries ih =>
      obtain ⟨hcomment, hfits⟩ := h e (List.mem_cons_self ..)
      have hno : 10 ∉ keyLine o e.1 e.2 := by
        intro hm
        rcases List.mem_append.mp hm with hm | hm
        · cases (encode_visible _ _ hm).1
        · rcases List.mem_cons.mp hm with hm | hm
          · cases hm
          · exact hcomment hm
      have hlen : (keyLine o e.1 e.2).length = 700 + 1 + e.2.length := by
        rw [keyLine, List.length_append, Alphabet.length_encode, e.1.length_image]
        simp only [List.length_cons, RSAPublicKey.size]
        omega
      have hcontent : (keyFile o (e :: entries)).content =
          keyLine o e.1 e.2 ++ 10 :: (keyFile o entries).content := by
        simp [keyFile]
      rw [hcontent, fgetsLines_line [] hno, List.nil_append, List.map_cons,
        ih fun e he => h e (List.mem_cons_of_mem _ he)]
      rw [hlen, List.length_nil]
      omega

/-- **A file of keys is loaded as it was written**, if its keys are of the right length and its
lines fit into the buffer. -/
theorem reload_written (entries : KeyPath → List (RSAPublicKey × List UInt8))
    {list : LoadedKeys} (h : list.live = list.keys.length)
    (hkeys : ∀ path, ∀ e ∈ entries path, e.1.len.toNat = RSANUMWORDS ∧ 10 ∉ e.2 ∧
      700 + 2 + e.2.length < MAX_PAYLOAD) :
    (adbAuthReloadKeys o (fun path => some (keyFile o (entries path))) list).keys =
      keyPaths.flatMap fun path => (entries path).map (·.1) := by
  rw [reloadKeys_eq _ h]
  refine List.flatMap_congr fun path _ => ?_
  rw [Option.elim_some, KeyFile.keys, fgetsLines_written fun e he => (hkeys path e he).2,
    show (keyFile o (entries path)).calloc = fun _ => true from rfl, allocated_eq,
    List.filterMap_map, ← List.filterMap_eq_map]
  exact List.filterMap_congr fun e he => readKey_written (hkeys path e he).1 e.2

/-- The number some bytes spell, the first of them the highest. -/
def bytesNat (bs : List UInt8) : Nat := bs.foldl (fun n b => 256 * n + b.toNat) 0

/-- The number some words spell, the first of them the lowest. -/
def wordsNat (ws : List UInt32) : Nat := ws.foldr (fun w n => w.toNat + 2 ^ 32 * n) 0

/-- The words of a number. -/
def natWords (n : Nat) : Vector UInt32 RSANUMWORDS :=
  ⟨((List.range RSANUMWORDS).map fun i => UInt32.ofNat (n >>> (32 * i))).toArray, by simp⟩

/-- A token as it is signed: padded to the length of a signature, behind the mark of SHA-1. -/
def padded (token : List UInt8) : List UInt8 :=
  [0, 1] ++ List.replicate 218 255 ++
    [0, 48, 33, 48, 9, 6, 5, 43, 14, 3, 2, 26, 5, 0, 4, 20] ++ token

/-- What `RSA_verify` computes with a key that is in order. -/
def rsaVerifyNat (key : RSAPublicKey) (sig token : List UInt8) : Bool :=
  sig.length = RSANUMBYTES ∧
    bytesNat sig ^ key.exponent.toNat % wordsNat key.n.toList = bytesNat (padded token)

/-- The token of the example, and a signature of it. -/
def smallToken : List UInt8 := List.replicate TOKEN_SIZE 7

def smallSignature : List UInt8 := List.replicate 170 0 ++ 6 :: List.replicate 85 0

/-- The modulus for which the cube of the signature is the padded token. -/
def smallModulus : Nat := bytesNat smallSignature ^ 3 - bytesNat (padded smallToken)

/-- A key with the exponent 3. -/
def smallKey : RSAPublicKey where
  len := 64
  n0inv := 3681400503
  n := natWords smallModulus
  rr := natWords (2 ^ 4096 % smallModulus)
  exponent := 3

/-- A file with that key in `/adb_keys`. -/
def smallEntries : KeyPath → List (RSAPublicKey × List UInt8)
  | .root => [(smallKey, ascii ['u', 's', 'e', 'r'])]
  | .data => []

theorem smallEntries_fit : ∀ path, ∀ e ∈ smallEntries path, e.1.len.toNat = RSANUMWORDS ∧
    10 ∉ e.2 ∧ 700 + 2 + e.2.length < MAX_PAYLOAD := by
  intro path e he
  cases path with
  | root =>
      obtain rfl := List.mem_singleton.mp he
      decide
  | data => cases he

/-- The file is loaded. -/
theorem reload_written_small : (adbAuthReloadKeys .little
    (fun path => some (keyFile .little (smallEntries path))) {}).keys = [smallKey] :=
  reload_written smallEntries rfl smallEntries_fit

/-- Its key verifies the signature of the token, and no empty one. -/
theorem auth_verify_small :
    adbAuthVerify rsaVerifyNat (adbAuthReloadKeys .little
        (fun path => some (keyFile .little (smallEntries path))) {}).keys smallToken
          smallSignature 256 = true ∧
    rsaVerifyNat smallKey [] smallToken = false := by
  refine ⟨(auth_verify_iff _ _ rfl _ _ 256).2.mpr ⟨rfl, .root, _, 0, _, smallKey, rfl, ?_,
    fun _ _ => rfl, readKey_eq_some.mp (readKey_written rfl (ascii ['u', 's', 'e', 'r'])),
    by decide +kernel⟩, by decide +kernel⟩
  rw [fgetsLines_written fun e he => (smallEntries_fit .root e he).2]
  rfl

end Adbd
