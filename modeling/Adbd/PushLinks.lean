import Adbd.SyncSession

/-!
# The Target of a Pushed Link

`handle_send_link` reads the target of a link into the buffer that all requests of a session
share, and hands the buffer to `symlink` as a string. Nothing terminates it:
`file_sync_service` puts a NUL behind the name of a request, but not behind the target. So the
target ends with the payload only if the client sent a NUL with it, or if the byte that an
earlier request left behind it happens to be one.

## Main definitions

* `FileSystem.recording`: a file system that keeps the targets `symlink` was called with.
* `Turns`: the requests of a session so far.
* `LinkExact`: `symlink` gets the payload up to its first NUL or its end, and reads no byte
  outside of the buffer.

## Main results

* `serve_full`: the buffer keeps its size.
* `push_link_iff`: when a link is exact, and when it is whatever the buffer held before.
-/

namespace Adbd

open CString

variable {σ : Type}

/-- The same file system, with the targets of the calls of `symlink`, newest first. -/
def FileSystem.recording (fs : FileSystem σ) : FileSystem (σ × List Path) where
  lstat f path := ((fs.lstat f.1 path).1, (fs.lstat f.1 path).2, f.2)
  opendir f path := ((fs.opendir f.1 path).1, (fs.opendir f.1 path).2, f.2)
  openNew f path mode := ((fs.openNew f.1 path mode).1, (fs.openNew f.1 path mode).2, f.2)
  openOld f path := ((fs.openOld f.1 path).1, (fs.openOld f.1 path).2, f.2)
  openRead f path := ((fs.openRead f.1 path).1, (fs.openRead f.1 path).2, f.2)
  writeCalls f fd bs := ((fs.writeCalls f.1 fd bs).1, (fs.writeCalls f.1 fd bs).2, f.2)
  store f fd bs := (fs.store f.1 fd bs, f.2)
  close f fd := (fs.close f.1 fd, f.2)
  unlink f path := (fs.unlink f.1 path, f.2)
  mkdir f path := ((fs.mkdir f.1 path).1, (fs.mkdir f.1 path).2, f.2)
  symlink f target path :=
    ((fs.symlink f.1 target path).1, (fs.symlink f.1 target path).2, target :: f.2)
  utime f path t := (fs.utime f.1 path t, f.2)
  strerror := fs.strerror

/-- A `read` of a file returns at most the bytes that were asked for. -/
def FileSystem.ReadsFit (fs : FileSystem σ) : Prop :=
  ∀ f path rs f', fs.openRead f path = (.ok rs, f') →
    ∀ bs, ReadResult.data bs ∈ rs → bs.length ≤ SYNC_DATA_MAX

theorem FileSystem.ReadsFit.recording {fs : FileSystem σ} (h : fs.ReadsFit) :
    fs.recording.ReadsFit := by
  intro f path rs f' ho
  obtain ⟨hrs, -⟩ := Prod.mk.inj ho
  exact h f.1 path rs (fs.openRead f.1 path).2 (Prod.ext hrs rfl)

variable (fs : FileSystem σ)

/-- **The session has come from one state to another** by requests after which it goes on. -/
inductive Turns (s₀ : SyncState σ) : SyncState σ → Prop
  | refl : Turns s₀ s₀
  | turn {s s' : SyncState σ} : Turns s₀ s → serve fs s = (true, s') → Turns s₀ s'

/-- **The link is exact**: `symlink` is called for the payload up to its first NUL or its end,
and the string it reads ends inside the buffer. -/
structure LinkExact (s : SyncState (σ × List Path)) (payload : List UInt8) : Prop where
  targets : ∃ new, new ≠ [] ∧ (serve fs.recording s).2.files.2 = new ++ s.files.2 ∧
    ∀ target ∈ new, target = cstr payload
  inside : 0 ∈ (serve fs.recording s).2.buffer

/-! ### The size of the buffer -/

variable {fs} {s s' : SyncState σ}

/-- The buffer is as `malloc` returned it. -/
def SyncState.Full (s : SyncState σ) : Prop := s.buffer.length = SYNC_DATA_MAX

theorem SyncState.Full.fill (h : s.Full) {bs : List UInt8} (hbs : bs.length ≤ SYNC_DATA_MAX) :
    (s.fill bs).Full := by
  rw [Full] at h
  rw [Full, SyncState.fill, List.length_append, List.length_drop]
  omega

/-- A read of the request pipe leaves the buffer and the files alone. -/
theorem SyncState.read_keeps {n : Nat} {bs : List UInt8} (h : s.read n = some (bs, s')) :
    s'.buffer = s.buffer ∧ s'.files = s.files ∧ bs.length = n := by
  rw [SyncState.read] at h
  split at h
  · next hgot =>
    obtain ⟨rfl, rfl⟩ := Prod.mk.inj (Option.some.inj h)
    exact ⟨rfl, rfl, (readx_takes _ _ _ _ _ _ hgot).2.1⟩
  · cases h
  · cases h

theorem SyncState.Full.read {n : Nat} {bs : List UInt8} (hf : s.Full)
    (h : s.read n = some (bs, s')) : s'.Full := by
  rw [Full, (read_keeps h).1]
  exact hf

theorem storeChunk_buffer (path : Path) (fd : Option Nat) (s : SyncState σ) (bs : List UInt8) :
    (storeChunk fs path fd s bs).2.buffer = s.buffer := by
  cases fd with
  | none => rfl
  | some d =>
      rw [storeChunk]
      rcases writeFile fs s.files d bs with ⟨e | e, files⟩ <;> rfl

/-- The messages of a file are read into it. -/
theorem sendFileLoop_full (path : Path) (n : Nat) (fd : Option Nat) (h : s.Full) :
    (sendFileLoop fs path n fd s).2.Full := by
  induction n generalizing fd s with
  | zero => exact h
  | succ n ih =>
      rw [sendFileLoop]
      cases hhdr : s.read 8 with
      | none => exact h
      | some r =>
          obtain ⟨hdr, s₁⟩ := r
          have h₁ : s₁.Full := h.read hhdr
          dsimp only
          split
          · split
            · exact h₁
            · exact h₁
          · next hid =>
            split
            · exact h₁
            · next hsize =>
              cases hread : s₁.read (headerSize hdr).toNat with
              | none => exact h₁
              | some r =>
                  obtain ⟨bs, s₂⟩ := r
                  have hlen : bs.length ≤ SYNC_DATA_MAX := by
                    rw [(SyncState.read_keeps hread).2.2]
                    omega
                  refine ih _ ?_
                  rw [SyncState.Full, storeChunk_buffer]
                  exact (h₁.read hread).fill hlen

theorem handleSendFile_full (path : Path) (mode : UInt32) (h : s.Full) :
    (handleSendFile fs s path mode).2.Full := by
  have hloop (fd : Option Nat) (s₁ : SyncState σ) (h₁ : s₁.Full) :
      (sendFileLoop fs path (s.input.length + 1) fd s₁).2.Full :=
    sendFileLoop_full path (s.input.length + 1) fd h₁
  rw [handleSendFile]
  rcases openTarget fs s.files path mode with ⟨e | fd, files⟩
  · have h₁ := hloop none (failErrno fs { s with files := files } e) h
    dsimp only at h₁ ⊢
    generalize sendFileLoop fs path _ none _ = r at h₁ ⊢
    obtain ⟨⟨fd | fd, t⟩ | ⟨fd | fd⟩, s₁⟩ := r <;> exact h₁
  · have h₁ := hloop (some fd) { s with files := files } h
    dsimp only at h₁ ⊢
    generalize sendFileLoop fs path _ (some fd) _ = r at h₁ ⊢
    obtain ⟨⟨fd | fd, t⟩ | ⟨fd | fd⟩, s₁⟩ := r <;> exact h₁

theorem handleSendLink_full (path : Path) (h : s.Full) :
    (handleSendLink fs s path).2.Full := by
  rw [handleSendLink]
  cases hhdr : s.read 8 with
  | none => exact h
  | some r =>
      obtain ⟨hdr, s₁⟩ := r
      have h₁ : s₁.Full := h.read hhdr
      dsimp only
      split
      · exact h₁
      · split
        · exact h₁
        · next hsize =>
          cases hread : s₁.read (headerSize hdr).toNat with
          | none => exact h₁
          | some r =>
              obtain ⟨bs, s₂⟩ := r
              have hlen : bs.length ≤ SYNC_DATA_MAX := by
                rw [(SyncState.read_keeps hread).2.2]
                omega
              have h₂ : (s₂.fill bs).Full := (h₁.read hread).fill hlen
              dsimp only
              rcases makeLink fs (s₂.fill bs).files (cstr (s₂.fill bs).buffer) path
                with ⟨e | e, files⟩
              · dsimp only
                cases hdone : SyncState.read { s₂.fill bs with files := files } 8 with
                | none => exact h₂
                | some r =>
                    obtain ⟨hdr, s₃⟩ := r
                    have h₃ : s₃.Full :=
                      SyncState.Full.read (s := { s₂.fill bs with files := files }) h₂ hdone
                    dsimp only
                    split
                    · exact h₃
                    · exact h₃
              · exact h₂

theorem recvLoop_full (rs : List ReadResult) (h : s.Full)
    (hfit : ∀ bs, ReadResult.data bs ∈ rs → bs.length ≤ SYNC_DATA_MAX) :
    (recvLoop fs s rs).Full := by
  induction rs generalizing s with
  | nil => exact h
  | cons r rs ih =>
      have hrest : ∀ bs, ReadResult.data bs ∈ rs → bs.length ≤ SYNC_DATA_MAX :=
        fun bs hbs => hfit bs (List.mem_cons_of_mem _ hbs)
      cases r with
      | eintr => exact ih h hrest
      | error e => exact h
      | data bs =>
          rw [recvLoop]
          split
          · exact h
          · exact ih (s := (s.fill bs).send (.data bs)) (h.fill (hfit bs (by simp))) hrest

theorem doList_full (path : Path) (h : s.Full) : (doList fs s path).2.Full := by
  have hentries (names : List (List UInt8)) (s₁ : SyncState σ) (h₁ : s₁.Full) :
      (names.foldl (listEntry fs path) s₁).Full := by
    induction names generalizing s₁ with
    | nil => exact h₁
    | cons name names ih =>
        refine ih _ ?_
        rw [listEntry]
        split
        · exact h₁
        · dsimp only
          split <;> exact h₁
  rw [doList]
  exact hentries _ { s with files := (fs.opendir s.files path).2 } h

/-- **The buffer keeps its size**, whatever the request. -/
theorem serve_full (hfit : fs.ReadsFit) (h : s.Full) : (serve fs s).2.Full := by
  rw [serve]
  cases hhdr : s.read 8 with
  | none => exact h
  | some r =>
      obtain ⟨hdr, s₁⟩ := r
      have h₁ : s₁.Full := h.read hhdr
      dsimp only
      split
      · exact h₁
      · cases hread : s₁.read (headerSize hdr).toNat with
        | none => exact h₁
        | some r =>
            obtain ⟨name, s₂⟩ := r
            have h₂ : s₂.Full := h₁.read hread
            dsimp only
            split
            · exact h₂
            split
            · exact doList_full _ h₂
            split
            · rw [doSend]
              split
              · exact handleSendLink_full (s := { s₂ with files := _ }) _ h₂
              · exact handleSendFile_full (s := { s₂ with files := _ }) _ _ h₂
            split
            · rw [doRecv]
              rcases ho : fs.openRead s₂.files (cstr name) with ⟨e | rs, files⟩
              · exact h₂
              · exact recvLoop_full (s := { s₂ with files := files }) rs h₂ (hfit _ _ _ _ ho)
            split <;> exact h₂

theorem Turns.full {s₀ : SyncState σ} (hfit : fs.ReadsFit) (h : Turns fs s₀ s) (h₀ : s₀.Full) :
    s.Full := by
  induction h with
  | refl => exact h₀
  | turn _ hs ih =>
      have := serve_full hfit ih
      rwa [hs] at this

theorem Turns.next {s₀ : SyncState σ} (h : Turns fs s₀ s) (hs : (serve fs s).1 = true) :
    Turns fs s₀ (serve fs s).2 :=
  h.turn (Prod.ext hs rfl)

/-! ### The calls of `symlink` -/

variable {t : SyncState (σ × List Path)} {name payload rest : List UInt8} {mtime : UInt32}

theorem mkdirs_recording (path : Path) (f : σ × List Path) :
    (mkdirs fs.recording path f).2 = f.2 := by
  have hloop (dirs : List Path) (f : σ × List Path) :
    (mkdirsLoop fs.recording dirs f).2 = f.2 := by
    induction dirs generalizing f with
    | nil => rfl
    | cons d dirs ih =>
        rw [mkdirsLoop]
        have hd : (fs.recording.mkdir f d).2.2 = f.2 := rfl
        rcases hm : fs.recording.mkdir f d with ⟨_ | _ | _ | _, f'⟩ <;> rw [hm] at hd
        · exact (ih f').trans hd
        · exact hd
        · exact (ih f').trans hd
        · exact hd
  rw [mkdirs]
  split
  · rfl
  · exact hloop _ f

variable (fs) in
/-- `symlink` is called once or twice, for the same target. -/
theorem makeLink_recording (f : σ × List Path) (target path : Path) : ∃ new, new ≠ [] ∧
    (makeLink fs.recording f target path).2.2 = new ++ f.2 ∧ ∀ t ∈ new, t = target := by
  have hcall (f : σ × List Path) : (fs.recording.symlink f target path).2.2 =
    target :: f.2 := rfl
  rw [makeLink]
  split
  · next files hs =>
    have hfirst := hcall f
    rw [hs] at hfirst
    refine ⟨[target, target], by simp, ?_, by simp⟩
    rw [hcall, mkdirs_recording, hfirst]
    rfl
  · exact ⟨[target], by simp, hcall f, by simp⟩

variable (fs) in
/-- **A link is made to the string at the start of the buffer**, once the payload is in it. -/
theorem serve_link (h : t.Flows) (hn : name.length ≤ 1024)
    (hp : payload.length ≤ SYNC_DATA_MAX) (hlink : (sendTarget (cstr name)).2.2 = true)
    (hin : t.input = (SyncRequest.send name [payload] mtime).encode ++ rest) :
    (serve fs.recording t).2.buffer = payload ++ t.buffer.drop payload.length ∧
      ∃ new, new ≠ [] ∧ (serve fs.recording t).2.files.2 = new ++ t.files.2 ∧
        ∀ target ∈ new, target = cstr (payload ++ t.buffer.drop payload.length) := by
  rw [SyncRequest.encode, List.append_assoc, List.append_assoc, SyncRequest.dataMessages,
    List.flatMap_singleton] at hin
  obtain ⟨left, hleft, hs⟩ := serve_named fs.recording h hn hin
  rw [if_neg (by decide), if_neg (by decide), if_pos rfl, doSend] at hs
  dsimp only at hs
  rw [if_pos hlink] at hs
  obtain ⟨s₁, -, -, -, hbuf, heq⟩ := handleSendLink_data fs.recording
    (s := { t with
      input := syncNamed ID_DATA payload ++ (syncHeader ID_DONE mtime ++ rest), calls := left,
      files := fs.recording.unlink t.files (sendTarget (cstr name)).1 })
    hleft (sendTarget (cstr name)).1 hp rfl
  obtain ⟨new, hne, hcalls, hnew⟩ := makeLink_recording fs
    (fs.recording.unlink t.files (sendTarget (cstr name)).1)
    (cstr (payload ++ t.buffer.drop payload.length)) (sendTarget (cstr name)).1
  rw [hs, heq]
  rcases hm : makeLink fs.recording (fs.recording.unlink t.files (sendTarget (cstr name)).1)
    (cstr (payload ++ t.buffer.drop payload.length))
      (sendTarget (cstr name)).1 with ⟨e | e, files⟩
  · rw [hm] at hcalls
    dsimp only
    cases hread : SyncState.read { s₁ with files := files } 8 with
    | none => exact ⟨hbuf, new, hne, hcalls, hnew⟩
    | some r =>
        obtain ⟨hdr, s₂⟩ := r
        obtain ⟨hbuf₂, hfiles₂, -⟩ := SyncState.read_keeps hread
        have hcalls₂ : s₂.files.2 = new ++ t.files.2 :=
          (congrArg Prod.snd hfiles₂).trans hcalls
        dsimp only
        split
        · exact ⟨hbuf₂.trans hbuf, new, hne, hcalls₂, hnew⟩
        · exact ⟨hbuf₂.trans hbuf, new, hne, hcalls₂, hnew⟩
  · rw [hm] at hcalls
    exact ⟨hbuf, new, hne, hcalls, hnew⟩

/-- The string in a buffer is that of its first part, and ends in the buffer, if the first part
has a NUL or is followed by one. -/
theorem cstr_append_iff (bs rest : List UInt8) :
    cstr (bs ++ rest) = cstr bs ∧ 0 ∈ bs ++ rest ↔ 0 ∈ bs ∨ rest.head? = some 0 := by
  induction bs with
  | nil =>
      cases rest with
      | nil => simp [cstr]
      | cons b rest => by_cases hb : b = 0 <;> simp [cstr, hb]
  | cons b bs ih =>
      by_cases hb : b = 0
      · simp [cstr, hb]
      · have hb' : ¬0 = b := fun h => hb h.symm
        simpa [cstr, hb, hb'] using ih

variable (fs) in
/-- When a link is exact. -/
theorem linkExact_iff (h : t.Flows) (hn : name.length ≤ 1024)
    (hp : payload.length ≤ SYNC_DATA_MAX) (hlink : (sendTarget (cstr name)).2.2 = true)
    (hin : t.input = (SyncRequest.send name [payload] mtime).encode ++ rest) :
    LinkExact fs t payload ↔ 0 ∈ payload ∨ t.buffer[payload.length]? = some 0 := by
  obtain ⟨hbuf, new, hne, hcalls, hnew⟩ := serve_link fs h hn hp hlink hin
  rw [← List.head?_drop, ← cstr_append_iff]
  constructor
  · rintro ⟨⟨new', -, hcalls', hnew'⟩, hinside⟩
    obtain rfl : new' = new := List.append_cancel_right (hcalls'.symm.trans hcalls)
    obtain ⟨target, htarget⟩ := List.exists_mem_of_ne_nil new' hne
    exact ⟨(hnew target htarget).symm.trans (hnew' target htarget), hbuf ▸ hinside⟩
  · rintro ⟨heq, hinside⟩
    exact ⟨⟨new, hne, hcalls, fun target ht => (hnew target ht).trans heq⟩, hbuf ▸ hinside⟩

/-- **A pushed link points to what was sent** exactly if the payload has a NUL, or the byte
that the earlier requests of the session left behind it in the buffer is one; and it does so
whatever the buffer held before exactly if the payload has a NUL. -/
theorem push_link_iff (hfit : fs.ReadsFit) {t₀ : SyncState (σ × List Path)}
    (h₀ : t₀.buffer.length = SYNC_DATA_MAX) (hturns : Turns fs.recording t₀ t) (h : t.Flows)
    (hn : name.length ≤ 1024) (hp : payload.length ≤ SYNC_DATA_MAX)
    (hlink : (sendTarget (cstr name)).2.2 = true)
    (hin : t.input = (SyncRequest.send name [payload] mtime).encode ++ rest) :
    t.buffer.length = SYNC_DATA_MAX ∧
      (LinkExact fs t payload ↔ 0 ∈ payload ∨ t.buffer[payload.length]? = some 0) ∧
      ((∀ buffer, buffer.length = SYNC_DATA_MAX →
        LinkExact fs { t with buffer := buffer } payload) ↔ 0 ∈ payload) := by
  refine ⟨hturns.full hfit.recording h₀, linkExact_iff fs h hn hp hlink hin, ?_⟩
  have hiff (buffer : List UInt8) := linkExact_iff fs (t := { t with buffer := buffer })
    h hn hp hlink hin
  refine ⟨fun hall => ?_, fun hnul buffer _ => (hiff buffer).mpr (.inl hnul)⟩
  have hones := (hiff _).mp (hall (List.replicate SYNC_DATA_MAX 1) List.length_replicate)
  refine hones.resolve_right fun hget => ?_
  have hmem := List.mem_of_getElem? hget
  exact absurd (List.eq_of_mem_replicate hmem) (by decide)

/-- A session on the null file system, with a fresh buffer of zeros. -/
def linkSession (reqs : List SyncRequest) : SyncState (Unit × List Path) :=
  { input := reqs.flatMap SyncRequest.encode, buffer := List.replicate SYNC_DATA_MAX 0,
    files := ((), []) }

/-- A link `/a` to the given bytes. -/
def sendLink (payload : List UInt8) :
    SyncRequest := .send (ascii "/a,41471".toList) [payload] 7

theorem nullFiles_readsFit (link : Option Errno) : (nullFiles link).ReadsFit := by
  intro f path rs f' ho
  cases ho

/-- With a NUL the link is exact, also after a file with `xyz`. -/
theorem push_link_terminated : ∃ t : SyncState (Unit × List Path),
    Turns (nullFiles none).recording
      (linkSession [.send (ascii "/f,33188".toList) [[120, 121, 122]] 7, sendLink [98, 0]]) t ∧
    t.buffer.take 3 = [120, 121, 122] ∧ LinkExact (nullFiles none) t [98, 0] := by
  let t₀ := linkSession [.send (ascii "/f,33188".toList) [[120, 121, 122]] 7, sendLink [98, 0]]
  have hserve : (serve (nullFiles none).recording t₀).1 = true := by decide +kernel
  have hcalls : (serve (nullFiles none).recording t₀).2.calls = [] := by decide +kernel
  have hflows : (serve (nullFiles none).recording t₀).2.Flows := by
    simp [SyncState.Flows, hcalls]
  have hin : (serve (nullFiles none).recording t₀).2.input =
      (SyncRequest.send (ascii "/a,41471".toList) [[98, 0]] 7).encode ++ [] := by
    decide +kernel
  have hturns := Turns.next .refl hserve
  exact ⟨_, hturns, by decide +kernel,
    (push_link_iff (nullFiles_readsFit none) List.length_replicate hturns hflows (by decide)
      (by decide) (by decide) hin).2.1.mpr (.inl (by decide))⟩

/-- **A link gets the bytes of a file that was pushed before it**: after a file with `xyz`, the
link to `b` is one to `byz`. -/
theorem push_link_stale : ∃ t : SyncState (Unit × List Path),
    Turns (nullFiles none).recording
      (linkSession [.send (ascii "/f,33188".toList) [[120, 121, 122]] 7, sendLink [98]]) t ∧
    t.input = (sendLink [98]).encode ∧ (serve (nullFiles none).recording t).2.files.2 =
      [[98, 121, 122]] ∧ ¬LinkExact (nullFiles none) t [98] := by
  let t₀ := linkSession [.send (ascii "/f,33188".toList) [[120, 121, 122]] 7, sendLink [98]]
  have hserve : (serve (nullFiles none).recording t₀).1 = true := by decide +kernel
  have htarget : (serve (nullFiles none).recording
      (serve (nullFiles none).recording t₀).2).2.files.2 = [[98, 121, 122]] := by
        decide +kernel
  refine ⟨(serve (nullFiles none).recording t₀).2, .next .refl hserve,
    by decide +kernel, htarget, fun ⟨⟨new, hne, hcalls, hnew⟩, _⟩ => ?_⟩
  have hold : (serve (nullFiles none).recording t₀).2.files.2 = [] := by decide +kernel
  rw [htarget, hold, List.append_nil] at hcalls
  exact absurd (hnew [98, 121, 122] (by simp [← hcalls])) (by decide)

end Adbd
