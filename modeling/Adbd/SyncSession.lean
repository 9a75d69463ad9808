import Adbd.FileSync

/-!
# Sync Sessions

A client of the sync service sends requests one after the other and reads a reply for each.
This works if the service takes exactly the bytes of a request before it looks for the next
one, whatever happened to the files: `handle_send_file` goes on to read the messages of a
file it could not store, and replies once.

`handle_send_link` does not: if the link cannot be made it replies and ends the session, with
the `DONE` of the request unread, and it does the same for a link whose target does not come
in exactly one message.

## Main definitions

* `SyncRequest`, `SyncRequest.encode`: what the client sends.
* `SyncAnswers`: the replies to a request.
* `Session`: the service serves every request and stops at `QUIT`.
* `LinksMade`: every link that is sent comes in one message and can be made.

## Main results

* `sendFileLoop_spec`: a file is read to its end and answered at most once.
* `serve_request`, `serve_link_fails`: one request.
* `sync_session_iff`: a session works exactly if its links are made.
-/

namespace Adbd

open CString

variable {σ : Type} {fs : FileSystem σ} {s : SyncState σ}

/-! ### Requests -/

/-- A header with two words. -/
def syncHeader (id size : UInt32) :
    List UInt8 := storeWord .little id ++ storeWord .little size

/-- A request with a name. -/
def syncNamed (id : UInt32) (name : List UInt8) : List UInt8 :=
  syncHeader id (UInt32.ofNat name.length) ++ name

/-- A request of the client. A file or a link is sent with its name and mode, the messages
with its contents, and its time. -/
inductive SyncRequest
  | stat (path : List UInt8)
  | list (path : List UInt8)
  | recv (path : List UInt8)
  | send (name : List UInt8) (chunks : List (List UInt8)) (mtime : UInt32)
deriving DecidableEq, Repr

namespace SyncRequest

/-- The messages with the contents of a file. -/
def dataMessages (chunks : List (List UInt8)) : List UInt8 :=
  chunks.flatMap (syncNamed ID_DATA)

/-- The bytes of a request. -/
def encode : SyncRequest → List UInt8
  | .stat path => syncNamed ID_STAT path
  | .list path => syncNamed ID_LIST path
  | .recv path => syncNamed ID_RECV path
  | .send name chunks mtime =>
      syncNamed ID_SEND name ++ (dataMessages chunks ++ syncHeader ID_DONE mtime)

/-- The bytes of a last request. -/
def quit : List UInt8 := syncHeader ID_QUIT 0

/-- The request keeps to the limits of the protocol. -/
def WellFormed : SyncRequest → Prop
  | .stat path | .list path | .recv path => path.length ≤ 1024
  | .send name chunks _ => name.length ≤ 1024 ∧ ∀ c ∈ chunks, c.length ≤ SYNC_DATA_MAX

instance : DecidablePred WellFormed
  | .stat path | .list path | .recv path => inferInstanceAs (Decidable (path.length ≤ 1024))
  | .send name chunks _ => inferInstanceAs
      (Decidable (name.length ≤ 1024 ∧ ∀ c ∈ chunks, c.length ≤ SYNC_DATA_MAX))

end SyncRequest

/-- The bytes the reads of a file gave. -/
def readBytes : List ReadResult → List UInt8
  | [] => []
  | .eintr :: rs => readBytes rs
  | .error _ :: _ => []
  | .data bs :: rs => if bs = [] then [] else bs ++ readBytes rs

/-- The reads of a file came to its end. -/
def readsToEnd : List ReadResult → Bool
  | [] => true
  | .eintr :: rs => readsToEnd rs
  | .error _ :: _ => false
  | .data bs :: rs => bs = [] || readsToEnd rs

variable (fs) in
/-- **The replies to a request** that comes in state `s`. -/
def SyncAnswers (s : SyncState σ) : SyncRequest → List SyncReply → Prop
  | .stat _, ans => ∃ st, ans = [.stat st]
  | .list _, ans => ∃ dents : List (FileStat × List UInt8),
      ans = dents.map (fun d => .dent d.1 d.2) ++ [.dentDone]
  | .recv path, ans =>
      match (fs.openRead s.files (cstr path)).1 with
      | .ok rs => ∃ chunks : List (List UInt8), chunks.flatten = readBytes rs ∧
          if readsToEnd rs then ans = chunks.map .data ++ [.done]
          else ∃ reason, ans = chunks.map .data ++ [.fail reason]
      | .error e => ans = [.fail (fs.strerror e)]
  | .send .., ans => ans = [.okay] ∨ ∃ reason, ans = [.fail reason]

variable (fs) in
/-- **A session**: every request is served, its bytes and no others are read, the replies
answer it, and there is another turn; at `QUIT` the service ends. -/
inductive Session : SyncState σ → List SyncRequest → SyncState σ → Prop
  | quit {s s' : SyncState σ} (hs : serve fs s = (false, s'))
      (hin : s.input = SyncRequest.quit ++ s'.input) (hout : s'.out = s.out) : Session s [] s'
  | request {s s₁ s' : SyncState σ} {r : SyncRequest} {rs : List SyncRequest}
      {ans : List SyncReply}
      (hs : serve fs s = (true, s₁)) (hin : s.input = r.encode ++ s₁.input)
      (hout : s₁.out = s.out ++ ans) (hans : SyncAnswers fs s r ans)
      (hrest : Session s₁ rs s') :
      Session s (r :: rs) s'

variable (fs) in
/-- A link that is sent comes in one message, and can be made. -/
def LinkMade (s : SyncState σ) : SyncRequest → Prop
  | .send name chunks _ =>
      let target := sendTarget (cstr name)
      target.2.2 = true → ∃ c, chunks = [c] ∧
        (makeLink fs (fs.unlink s.files target.1)
          (cstr (c ++ s.buffer.drop c.length)) target.1).1 = none
  | _ => True

variable (fs) in
/-- The same for the links of a session, in the states they come in. -/
def LinksMade : SyncState σ → List SyncRequest → Prop
  | _, [] => True
  | s, r :: rs => LinkMade fs s r ∧ ∀ s₁, serve fs s = (true, s₁) → LinksMade s₁ rs

/-! ### Reading -/

/-- The reads of the request pipe are short or interrupted, but do not fail. -/
def SyncState.Flows (s : SyncState σ) : Prop := ∀ c ∈ s.calls, c.flows = true

theorem SyncState.Flows.congr {s s' : SyncState σ} (hc : s'.calls = s.calls) (h : s.Flows) :
    s'.Flows := by
  rw [SyncState.Flows, hc]
  exact h

/-- What is there is read. -/
theorem SyncState.read_append (h : s.Flows) {bs rest : List UInt8}
    (hin : s.input = bs ++ rest) :
    ∃ left, (∀ c ∈ left, c.flows = true) ∧
      s.read bs.length = some (bs, { s with input := rest, calls := left }) := by
  have hlen : bs.length ≤ s.input.length := by
    rw [hin, List.length_append]
    omega
  obtain ⟨a, rest', left, hgot⟩ := readx_succeeds h hlen
  obtain ⟨happ, hlen', hsuf⟩ := readx_takes s.calls bs.length s.input a rest' left hgot
  rw [hin] at happ
  obtain ⟨rfl, rfl⟩ := List.append_inj happ hlen'.symm
  refine ⟨left, fun c hc => h c (hsuf.subset hc), ?_⟩
  rw [SyncState.read, hgot]

@[simp] theorem length_syncHeader (id size : UInt32) : (syncHeader id size).length = 8 := by
  simp [syncHeader]

@[simp] theorem headerId_syncHeader (id size : UInt32) : headerId (syncHeader id size) = id :=
  loadWord_storeWord .little id _

@[simp] theorem headerSize_syncHeader (id size : UInt32) :
    headerSize (syncHeader id size) = size := by
  have hdrop : (syncHeader id size).drop 4 = storeWord .little size ++ [] := by
    rw [syncHeader, List.append_nil]
    exact List.drop_left' (length_storeWord ..)
  rw [headerSize, hdrop]
  exact loadWord_storeWord .little size []

/-- A header is read. -/
theorem SyncState.read_header (h : s.Flows) {id size : UInt32} {rest : List UInt8}
    (hin : s.input = syncHeader id size ++ rest) :
    ∃ left, (∀ c ∈ left, c.flows = true) ∧
      s.read 8 = some (syncHeader id size, { s with input := rest, calls := left }) := by
  have := SyncState.read_append h hin
  rwa [length_syncHeader] at this

/-- The length of a name or message in a header. -/
theorem toNat_ofNat_length {bs : List UInt8} (h : bs.length ≤ SYNC_DATA_MAX) :
    (UInt32.ofNat bs.length).toNat = bs.length := by
  have hmax : SYNC_DATA_MAX = 65536 := rfl
  rw [UInt32.toNat_ofNat']
  omega

/-! ### Files -/

variable (fs)

/-- A message with contents is taken by the loop of `handle_send_file`. -/
theorem sendFileLoop_data (h : s.Flows) (path : Path) (n : Nat) (fd : Option Nat)
    {c rest : List UInt8}
    (hc : c.length ≤ SYNC_DATA_MAX) (hin : s.input = syncNamed ID_DATA c ++ rest) :
    ∃ s₁ : SyncState σ, s₁.Flows ∧ s₁.input = rest ∧ s₁.out = s.out ∧ s₁.files = s.files ∧
      sendFileLoop fs path (n + 1) fd s =
        sendFileLoop fs path n (storeChunk fs path fd s₁ c).1
          (storeChunk fs path fd s₁ c).2 := by
  rw [syncNamed, List.append_assoc] at hin
  obtain ⟨left₁, hl₁, hr₁⟩ := SyncState.read_header h hin
  obtain ⟨left, hl, hr⟩ := SyncState.read_append
    (s := { s with input := c ++ rest, calls := left₁ }) hl₁ rfl
  refine ⟨({ s with input := rest, calls := left } : SyncState σ).fill c, hl, rfl,
    rfl, rfl, ?_⟩
  have hid : ¬headerId (syncHeader ID_DATA (UInt32.ofNat c.length)) ≠ ID_DATA := by simp
  have hsize :
    ¬SYNC_DATA_MAX < (headerSize (syncHeader ID_DATA (UInt32.ofNat c.length))).toNat := by
    rw [headerSize_syncHeader, toNat_ofNat_length hc]
    omega
  rw [sendFileLoop, hr₁]
  dsimp only
  rw [if_neg hid, if_neg hsize, headerSize_syncHeader, toNat_ofNat_length hc, hr]

/-- What a message does: an open file stays so, or an error is sent. -/
theorem storeChunk_spec (path : Path) (fd : Option Nat) (s : SyncState σ) (c : List UInt8) :
    (storeChunk fs path fd s c).2.input = s.input ∧
    (storeChunk fs path fd s c).2.calls = s.calls ∧
      ((storeChunk fs path fd s c).1 = fd ∧ (storeChunk fs path fd s c).2.out = s.out ∨
        fd ≠ none ∧ (storeChunk fs path fd s c).1 = none ∧
          ∃ reason, (storeChunk fs path fd s c).2.out = s.out ++ [.fail reason]) := by
  unfold storeChunk
  cases fd with
  | none => exact ⟨rfl, rfl, .inl ⟨rfl, rfl⟩⟩
  | some d =>
      dsimp only
      split
      · exact ⟨rfl, rfl, .inl ⟨rfl, rfl⟩⟩
      · exact ⟨rfl, rfl, .inr ⟨by simp, rfl, _, rfl⟩⟩

/-- **A file is read to its end**, and if it was open it is still or an error was sent. -/
theorem sendFileLoop_spec (path : Path) {chunks : List (List UInt8)} {mtime : UInt32}
    {rest : List UInt8} (hc : ∀ c ∈ chunks, c.length ≤ SYNC_DATA_MAX) {n : Nat}
    (hn : chunks.length < n) (fd : Option Nat) {s : SyncState σ} (h : s.Flows)
    (hin : s.input = SyncRequest.dataMessages chunks ++ (syncHeader ID_DONE mtime ++ rest)) :
    ∃ fd' s', sendFileLoop fs path n fd s = (.done fd' mtime, s') ∧ s'.Flows ∧
      s'.input = rest ∧
      (fd' = fd ∧ s'.out = s.out ∨
        fd ≠ none ∧ fd' = none ∧ ∃ reason, s'.out = s.out ++ [.fail reason]) := by
  induction chunks generalizing n fd s with
  | nil =>
      obtain ⟨m, rfl⟩ : ∃ m, n = m + 1 := ⟨n - 1, by simp at hn; omega⟩
      obtain ⟨left, hl, hr⟩ := SyncState.read_header h hin
      refine ⟨fd, { s with input := rest, calls := left }, ?_, hl, rfl, .inl ⟨rfl, rfl⟩⟩
      rw [sendFileLoop, hr]
      dsimp only
      rw [headerId_syncHeader, headerSize_syncHeader, if_pos (by decide), if_pos rfl]
  | cons c chunks ih =>
      obtain ⟨m, rfl⟩ : ∃ m, n = m + 1 := ⟨n - 1, by simp at hn; omega⟩
      rw [SyncRequest.dataMessages, List.flatMap_cons, List.append_assoc] at hin
      obtain ⟨s₁, hf₁, hin₁, hout₁, -, hloop⟩ :=
        sendFileLoop_data fs h path m fd (hc c (by simp)) hin
      obtain ⟨hin₂, hcalls₂, hcase⟩ := storeChunk_spec fs path fd s₁ c
      obtain ⟨fd', s', hrun, hf', hin', hend⟩ := ih (fun x hx => hc x (by simp [hx]))
        (by simpa using hn) (storeChunk fs path fd s₁ c).1 (hf₁.congr hcalls₂)
          (hin₂.trans hin₁)
      refine ⟨fd', s', hloop.trans hrun, hf', hin', ?_⟩
      rcases hcase with ⟨hfd, hout⟩ | ⟨hne, hfd, reason, hout⟩
      · rw [hfd, hout, hout₁] at hend
        exact hend
      · -- the error was sent for this message: the rest is only read
        rcases hend with ⟨hfd', hout'⟩ | ⟨hne', -⟩
        · exact .inr ⟨hne, hfd'.trans hfd, reason, by rw [hout', hout, hout₁]⟩
        · exact absurd hfd hne'

/-- Every message has a header. -/
theorem length_le_dataMessages (chunks : List (List UInt8)) :
    chunks.length ≤ (SyncRequest.dataMessages chunks).length := by
  induction chunks with
  | nil => exact Nat.le_refl _
  | cons c chunks ih =>
      rw [SyncRequest.dataMessages, List.flatMap_cons, List.length_append, List.length_cons]
      rw [SyncRequest.dataMessages] at ih
      simp only [syncNamed, List.length_append, length_syncHeader]
      omega

/-- **A file is sent**: all of it is read, and there is one reply. -/
theorem handleSendFile_spec (h : s.Flows) {chunks : List (List UInt8)} {mtime : UInt32}
    {rest : List UInt8} (hc : ∀ c ∈ chunks, c.length ≤ SYNC_DATA_MAX)
    (hin : s.input = SyncRequest.dataMessages chunks ++ (syncHeader ID_DONE mtime ++ rest))
    (path : Path) (mode : UInt32) :
    ∃ s' ans, handleSendFile fs s path mode = (true, s') ∧ s'.Flows ∧ s'.input = rest ∧
      s'.out = s.out ++ ans ∧ (ans = [.okay] ∨ ∃ reason, ans = [.fail reason]) := by
  have hn : chunks.length < s.input.length + 1 := by
    have := length_le_dataMessages chunks
    rw [hin, List.length_append]
    omega
  unfold handleSendFile
  rcases openTarget fs s.files path mode with ⟨e | fd, files⟩
  · obtain ⟨fd', s', hrun, hf, hin', hend⟩ := sendFileLoop_spec fs path hc hn none
      (s := failErrno fs { s with files := files } e) h hin
    rcases hend with ⟨rfl, hout⟩ | ⟨hne, -⟩
    · refine ⟨s', [.fail (fs.strerror e)], ?_, hf, hin', hout, .inr ⟨_, rfl⟩⟩
      dsimp only
      rw [hrun]
    · exact absurd rfl hne
  · obtain ⟨fd', s', hrun, hf, hin', hend⟩ := sendFileLoop_spec fs path hc hn (some fd)
      (s := { s with files := files }) h hin
    rcases hend with ⟨rfl, hout⟩ | ⟨-, rfl, reason, hout⟩
    · refine ⟨({ s' with files := fs.utime (fs.close s'.files fd) path mtime } :
        SyncState σ).send .okay,
        [.okay], ?_, hf, hin', congrArg (fun out => out ++ [SyncReply.okay]) hout, .inl rfl⟩
      dsimp only
      rw [hrun]
    · refine ⟨s', [.fail reason], ?_, hf, hin', hout, .inr ⟨_, rfl⟩⟩
      dsimp only
      rw [hrun]

/-! ### Links -/

/-- The first message of a link is taken by `handle_send_link`. -/
theorem handleSendLink_data (h : s.Flows) (path : Path) {c rest : List UInt8}
    (hc : c.length ≤ SYNC_DATA_MAX) (hin : s.input = syncNamed ID_DATA c ++ rest) :
    ∃ s₁ : SyncState σ, s₁.Flows ∧ s₁.input = rest ∧ s₁.out = s.out ∧
      s₁.buffer = c ++ s.buffer.drop c.length ∧ handleSendLink fs s path =
        match makeLink fs s.files (cstr (c ++ s.buffer.drop c.length)) path with
        | (some e, files) => (false, failErrno fs { s₁ with files := files } e)
        | (none, files) =>
            match { s₁ with files := files }.read 8 with
            | none => (false, { s₁ with files := files })
            | some (hdr, s) =>
                if headerId hdr = ID_DONE then (true, s.send .okay)
                else
                  (false, s.failMessage
                    (ascii "invalid data message: expected ID_DONE".toList)) := by
  rw [syncNamed, List.append_assoc] at hin
  obtain ⟨left₁, hl₁, hr₁⟩ := SyncState.read_header h hin
  obtain ⟨left, hl, hr⟩ := SyncState.read_append
    (s := { s with input := c ++ rest, calls := left₁ }) hl₁ rfl
  refine ⟨({ s with input := rest, calls := left } : SyncState σ).fill c, hl, rfl,
    rfl, rfl, ?_⟩
  have hid : ¬headerId (syncHeader ID_DATA (UInt32.ofNat c.length)) ≠ ID_DATA := by simp
  have hsize :
    ¬SYNC_DATA_MAX < (headerSize (syncHeader ID_DATA (UInt32.ofNat c.length))).toNat := by
    rw [headerSize_syncHeader, toNat_ofNat_length hc]
    omega
  rw [handleSendLink, hr₁]
  dsimp only
  rw [if_neg hid, if_neg hsize, headerSize_syncHeader, toNat_ofNat_length hc, hr]
  rfl

/-- **A link is sent** in one message and made: all of it is read, and the reply is `OKAY`. -/
theorem handleSendLink_made (h : s.Flows) (path : Path) {c rest : List UInt8} {mtime : UInt32}
    (hc : c.length ≤ SYNC_DATA_MAX)
    (hin : s.input = syncNamed ID_DATA c ++ (syncHeader ID_DONE mtime ++ rest))
    (hmade : (makeLink fs s.files (cstr (c ++ s.buffer.drop c.length)) path).1 = none) :
    ∃ s', handleSendLink fs s path = (true, s') ∧ s'.Flows ∧ s'.input = rest ∧
      s'.out = s.out ++ [.okay] := by
  obtain ⟨s₁, hf₁, hin₁, hout₁, -, heq⟩ := handleSendLink_data fs h path hc hin
  rcases hm : makeLink fs s.files (cstr (c ++ s.buffer.drop c.length)) path with ⟨e, files⟩
  rw [hm] at hmade heq
  obtain rfl : e = none := hmade
  obtain ⟨left, hl, hr⟩ := SyncState.read_header (s := { s₁ with files := files }) hf₁ hin₁
  refine ⟨({ s₁ with files := files, input := rest, calls := left } : SyncState σ).send .okay,
    ?_, hl, rfl, congrArg (fun out => out ++ [SyncReply.okay]) hout₁⟩
  rw [heq]
  dsimp only
  rw [hr]
  dsimp only
  rw [if_pos (headerId_syncHeader ..)]

/-- Any other link ends the session. -/
theorem handleSendLink_fails (h : s.Flows) (path : Path) {chunks : List (List UInt8)}
    {rest : List UInt8} {mtime : UInt32} (hc : ∀ c ∈ chunks, c.length ≤ SYNC_DATA_MAX)
    (hin : s.input = SyncRequest.dataMessages chunks ++ (syncHeader ID_DONE mtime ++ rest))
    (hnot : ¬∃ c, chunks = [c] ∧
      (makeLink fs s.files (cstr (c ++ s.buffer.drop c.length)) path).1 = none) :
    (handleSendLink fs s path).1 = false := by
  cases chunks with
  | nil =>
      obtain ⟨left, -, hr⟩ := SyncState.read_header h hin
      rw [handleSendLink, hr]
      dsimp only
      rw [headerId_syncHeader, if_pos (by decide)]
  | cons c chunks =>
      rw [SyncRequest.dataMessages, List.flatMap_cons, List.append_assoc] at hin
      obtain ⟨s₁, hf₁, hin₁, -, -, heq⟩ := handleSendLink_data fs h path (hc c (by simp)) hin
      rw [heq]
      rcases hm : makeLink fs s.files (cstr (c ++ s.buffer.drop c.length)) path with
        ⟨e | e, files⟩
      · -- the link was made: another message follows in place of `DONE`
        cases chunks with
        | nil => exact absurd ⟨c, rfl, by rw [hm]⟩ hnot
        | cons c' chunks =>
            rw [List.flatMap_cons, List.append_assoc, syncNamed, List.append_assoc] at hin₁
            obtain ⟨left, -, hr⟩ :=
              SyncState.read_header (s := { s₁ with files := files }) hf₁ hin₁
            dsimp only
            rw [hr]
            dsimp only
            rw [headerId_syncHeader, if_neg (by decide)]
      · rfl

/-! ### Requests are served -/

/-- The entries of a listing are sent, and nothing is read. -/
theorem listEntries_spec (path : Path) (names : List (List UInt8)) (s : SyncState σ) :
    (names.foldl (listEntry fs path) s).input = s.input ∧
      (names.foldl (listEntry fs path) s).calls = s.calls ∧
      ∃ dents : List (FileStat × List UInt8),
        (names.foldl (listEntry fs path) s).out = s.out ++ dents.map fun d =>
          .dent d.1 d.2 := by
  induction names generalizing s with
  | nil => exact ⟨rfl, rfl, [], by simp⟩
  | cons name names ih =>
      have hentry : (listEntry fs path s name).input = s.input ∧
          (listEntry fs path s name).calls = s.calls ∧
          ∃ dents : List (FileStat × List UInt8),
            (listEntry fs path s name).out = s.out ++ dents.map fun d => .dent d.1 d.2 := by
        unfold listEntry
        split
        · exact ⟨rfl, rfl, [], by simp⟩
        · dsimp only
          split
          · exact ⟨rfl, rfl, [], by simp⟩
          · rename_i st _
            exact ⟨rfl, rfl, [(st, name)], rfl⟩
      obtain ⟨hin, hcalls, dents, hout⟩ := hentry
      obtain ⟨hin', hcalls', dents', hout'⟩ := ih (listEntry fs path s name)
      refine ⟨hin'.trans hin, hcalls'.trans hcalls, dents ++ dents', ?_⟩
      rw [List.foldl_cons, hout', hout, List.map_append, List.append_assoc]

/-- The bytes read from a file are sent, then how it ended, and no request is read. -/
theorem recvLoop_spec (rs : List ReadResult) (s : SyncState σ) :
    (recvLoop fs s rs).input = s.input ∧ (recvLoop fs s rs).calls = s.calls ∧
      ∃ chunks : List (List UInt8), chunks.flatten = readBytes rs ∧
        (readsToEnd rs = true ∧ (recvLoop fs s rs).out = s.out ++
          (chunks.map .data ++ [.done]) ∨
          readsToEnd rs = false ∧
            ∃ reason, (recvLoop fs s rs).out = s.out ++
              (chunks.map .data ++ [.fail reason])) := by
  induction rs generalizing s with
  | nil => exact ⟨rfl, rfl, [], rfl, .inl ⟨rfl, rfl⟩⟩
  | cons r rs ih =>
      cases r with
      | eintr => exact ih s
      | error e => exact ⟨rfl, rfl, [], rfl, .inr ⟨rfl, _, rfl⟩⟩
      | data bs =>
          rw [recvLoop, readBytes, readsToEnd]
          split
          · rename_i hbs
            exact ⟨rfl, rfl, [], rfl, .inl ⟨by simp [hbs], rfl⟩⟩
          · rename_i hbs
            obtain ⟨hin, hcalls, chunks, hbytes, hout⟩ := ih ((s.fill bs).send (.data bs))
            refine ⟨hin, hcalls, bs :: chunks, by rw [List.flatten_cons, hbytes], ?_⟩
            simpa [SyncState.send, SyncState.fill, hbs] using hout

/-- **A file or a link is sent.** -/
theorem doSend_spec (h : s.Flows) (name : Path) {chunks : List (List UInt8)} {mtime : UInt32}
    {rest : List UInt8} (hc : ∀ c ∈ chunks, c.length ≤ SYNC_DATA_MAX)
    (hin : s.input = SyncRequest.dataMessages chunks ++ (syncHeader ID_DONE mtime ++ rest))
    (hlink : (sendTarget name).2.2 = true → ∃ c, chunks = [c] ∧
      (makeLink fs (fs.unlink s.files (sendTarget name).1) (cstr (c ++ s.buffer.drop c.length))
        (sendTarget name).1).1 = none) :
    ∃ s' ans, doSend fs s name = (true, s') ∧ s'.Flows ∧ s'.input = rest ∧
      s'.out = s.out ++ ans ∧ (ans = [.okay] ∨ ∃ reason, ans = [.fail reason]) := by
  unfold doSend
  dsimp only
  split
  · rename_i hl
    obtain ⟨c, rfl, hmade⟩ := hlink hl
    have hin₁ : s.input = syncNamed ID_DATA c ++ (syncHeader ID_DONE mtime ++ rest) := by
      rw [hin]
      simp [SyncRequest.dataMessages]
    obtain ⟨s', hrun, hf, hin', hout⟩ := handleSendLink_made fs
      (s := { s with files := fs.unlink s.files (sendTarget name).1 }) h (sendTarget name).1
      (hc c (by simp)) hin₁ hmade
    exact ⟨s', [.okay], hrun, hf, hin', hout, .inl rfl⟩
  · exact handleSendFile_spec fs
      (s := { s with files := fs.unlink s.files (sendTarget name).1 }) h hc
      hin (sendTarget name).1 (copyUserBits (sendTarget name).2.1)

/-- The header and the name of a request are read. -/
theorem serve_named (h : s.Flows) {id : UInt32} {name rest : List UInt8}
    (hn : name.length ≤ 1024) (hin : s.input = syncNamed id name ++ rest) :
    ∃ left, (∀ c ∈ left, c.flows = true) ∧
      serve fs s =
        (if id = ID_STAT then doStat fs { s with input := rest, calls := left } (cstr name)
        else if id = ID_LIST then doList fs { s with input := rest, calls := left } (cstr name)
        else if id = ID_SEND then doSend fs { s with input := rest, calls := left } (cstr name)
        else if id = ID_RECV then doRecv fs { s with input := rest, calls := left } (cstr name)
        else if id = ID_QUIT then (false, { s with input := rest, calls := left })
        else
          (false, ({ s with input := rest, calls := left } : SyncState σ).failMessage
            (ascii "unknown command".toList))) := by
  rw [syncNamed, List.append_assoc] at hin
  obtain ⟨left₁, hl₁, hr₁⟩ := SyncState.read_header h hin
  obtain ⟨left, hl, hr⟩ := SyncState.read_append
    (s := { s with input := name ++ rest, calls := left₁ }) hl₁ rfl
  have hlen : (UInt32.ofNat name.length).toNat = name.length :=
    toNat_ofNat_length (hn.trans (by decide))
  refine ⟨left, hl, ?_⟩
  rw [serve, hr₁]
  dsimp only
  rw [headerSize_syncHeader, headerId_syncHeader, hlen, if_neg (by omega), hr]

/-- **A request is served**: its bytes are read, the replies answer it, and the session goes
on. -/
theorem serve_request (h : s.Flows) {r : SyncRequest} {rest : List UInt8} (hr : r.WellFormed)
    (hin : s.input = r.encode ++ rest) (hlink : LinkMade fs s r) :
    ∃ s₁ ans, serve fs s = (true, s₁) ∧ s₁.Flows ∧ s₁.input = rest ∧ s₁.out = s.out ++ ans ∧
      SyncAnswers fs s r ans := by
  cases r with
  | stat path =>
      obtain ⟨left, hl, hs⟩ := serve_named fs h hr hin
      exact ⟨_, _, hs.trans (if_pos rfl), hl, rfl, rfl, _, rfl⟩
  | list path =>
      obtain ⟨left, hl, hs⟩ := serve_named fs h hr hin
      obtain ⟨hin', hcalls, dents, hout⟩ := listEntries_spec fs (cstr path)
        ((fs.opendir s.files (cstr path)).1.getD [])
        { s with input := rest, calls := left, files := (fs.opendir s.files (cstr path)).2 }
      rw [if_neg (by decide), if_pos rfl] at hs
      refine ⟨_, dents.map (fun d => .dent d.1 d.2) ++ [.dentDone], hs, ?_, hin', ?_,
        dents, rfl⟩
      · exact SyncState.Flows.congr (s := { s with input := rest, calls := left }) hcalls hl
      · exact (congrArg (fun out => out ++ [SyncReply.dentDone]) hout).trans
          (List.append_assoc ..)
  | recv path =>
      obtain ⟨left, hl, hs⟩ := serve_named fs h hr hin
      rw [if_neg (by decide), if_neg (by decide), if_neg (by decide), if_pos rfl] at hs
      rcases ho : fs.openRead s.files (cstr path) with ⟨e | rs, files⟩
      · rw [doRecv, ho] at hs
        exact ⟨_, _, hs, hl, rfl, rfl, by rw [SyncAnswers, ho]⟩
      · rw [doRecv, ho] at hs
        obtain ⟨hin', hcalls, chunks, hbytes, hout⟩ := recvLoop_spec fs rs
          { s with input := rest, calls := left, files := files }
        have hf := SyncState.Flows.congr hcalls hl
        rcases hout with ⟨hend, hout⟩ | ⟨hend, reason, hout⟩
        · refine ⟨_, _, hs, hf, hin', hout, ?_⟩
          rw [SyncAnswers, ho]
          exact ⟨chunks, hbytes, by rw [if_pos hend]⟩
        · refine ⟨_, _, hs, hf, hin', hout, ?_⟩
          rw [SyncAnswers, ho]
          exact ⟨chunks, hbytes, by rw [if_neg (by simp [hend])]; exact ⟨reason, rfl⟩⟩
  | send name chunks mtime =>
      obtain ⟨hn, hc⟩ := hr
      rw [SyncRequest.encode, List.append_assoc, List.append_assoc] at hin
      obtain ⟨left, hl, hs⟩ := serve_named fs h hn hin
      rw [if_neg (by decide), if_neg (by decide), if_pos rfl] at hs
      obtain ⟨s', ans, hrun, hf, hin', hout, hans⟩ := doSend_spec fs
        (s := { s with
          input := SyncRequest.dataMessages chunks ++ (syncHeader ID_DONE mtime ++ rest),
            calls := left })
        hl (cstr name) hc rfl hlink
      exact ⟨s', ans, hs.trans hrun, hf, hin', hout, hans⟩

/-- **A link that is not made ends the session.** -/
theorem serve_link_fails (h : s.Flows) {r : SyncRequest} {rest : List UInt8}
    (hr : r.WellFormed) (hin : s.input = r.encode ++ rest) (hlink : ¬LinkMade fs s r) :
    (serve fs s).1 = false := by
  cases r with
  | stat path => exact absurd trivial hlink
  | list path => exact absurd trivial hlink
  | recv path => exact absurd trivial hlink
  | send name chunks mtime =>
      obtain ⟨hn, hc⟩ := hr
      obtain ⟨hl, hnot⟩ := Classical.not_imp.mp hlink
      rw [SyncRequest.encode, List.append_assoc, List.append_assoc] at hin
      obtain ⟨left, hleft, hs⟩ := serve_named fs h hn hin
      rw [hs, if_neg (by decide), if_neg (by decide), if_pos rfl, doSend]
      dsimp only
      rw [if_pos hl]
      exact handleSendLink_fails fs
        (s := { s with
          input := SyncRequest.dataMessages chunks ++ (syncHeader ID_DONE mtime ++ rest),
          calls := left, files := fs.unlink s.files (sendTarget (cstr name)).1 })
        hleft _ hc rfl hnot

/-- The last request ends the session. -/
theorem serve_quit (h : s.Flows) {rest : List UInt8}
    (hin : s.input = SyncRequest.quit ++ rest) :
    ∃ s', serve fs s = (false, s') ∧ s'.input = rest ∧ s'.out = s.out := by
  have hin' : s.input = syncNamed ID_QUIT [] ++ rest := hin
  obtain ⟨left, -, hs⟩ := serve_named fs h (by decide) hin'
  exact ⟨_, hs, rfl, rfl⟩

/-! ### Sessions -/

/-- The links of a session are made if the session works. -/
theorem linksMade_of_session {reqs : List SyncRequest} {rest : List UInt8} {s s' : SyncState σ}
    (h : s.Flows) (hreqs : ∀ r ∈ reqs, r.WellFormed)
    (hin : s.input = reqs.flatMap SyncRequest.encode ++ rest)
    (hsession : Session fs s reqs s') :
    LinksMade fs s reqs := by
  induction reqs generalizing s with
  | nil => trivial
  | cons r rs ih =>
      cases hsession with
      | request hs hin₀ hout hans hrest =>
          rw [List.flatMap_cons, List.append_assoc] at hin
          have hr := hreqs r (by simp)
          by_cases hlink : LinkMade fs s r
          · obtain ⟨s₁, ans₁, hs₁, hf, hin₁, -⟩ := serve_request fs h hr hin hlink
            rw [hs₁] at hs
            cases hs
            refine ⟨hlink, fun s₂ hs₂ => ?_⟩
            rw [hs₁] at hs₂
            cases hs₂
            exact ih hf (fun x hx => hreqs x (by simp [hx])) hin₁ hrest
          · have := serve_link_fails fs h hr hin hlink
            rw [hs] at this
            exact absurd this (by simp)

/-- The session works if its links are made. -/
theorem session_of_linksMade {reqs : List SyncRequest} {rest : List UInt8} {s : SyncState σ}
    (h : s.Flows) (hreqs : ∀ r ∈ reqs, r.WellFormed)
    (hin : s.input = reqs.flatMap SyncRequest.encode ++ (SyncRequest.quit ++ rest))
    (hlinks : LinksMade fs s reqs) :
    ∃ s', Session fs s reqs s' ∧ s'.input = rest ∧
      fileSyncService fs (reqs.length + 1) s = some s' := by
  induction reqs generalizing s with
  | nil =>
      obtain ⟨s', hs, hin', hout⟩ := serve_quit fs h hin
      refine ⟨s', .quit hs (hin' ▸ hin) hout, hin', ?_⟩
      rw [fileSyncService, hs]
  | cons r rs ih =>
      rw [List.flatMap_cons, List.append_assoc] at hin
      obtain ⟨s₁, ans, hs, hf, hin₁, hout, hans⟩ :=
        serve_request fs h (hreqs r (by simp)) hin hlinks.1
      obtain ⟨s', hsession, hin', hrun⟩ :=
        ih hf (fun x hx => hreqs x (by simp [hx])) hin₁ (hlinks.2 s₁ hs)
      refine ⟨s', .request hs (hin₁ ▸ hin) hout hans hsession, hin', ?_⟩
      rw [List.length_cons, fileSyncService, hs]
      exact hrun

/-- **A session works exactly if its links are made**: each request is read up to its end and
answered once, whatever the calls on the file system return, and the service ends at `QUIT`. -/
theorem sync_session_iff {s : SyncState σ} (h : s.Flows) (reqs : List SyncRequest)
    (hreqs : ∀ r ∈ reqs, r.WellFormed) {rest : List UInt8}
    (hin : s.input = reqs.flatMap SyncRequest.encode ++ (SyncRequest.quit ++ rest)) :
    (∃ s', Session fs s reqs s' ∧ s'.input = rest ∧
        fileSyncService fs (reqs.length + 1) s = some s') ↔
      LinksMade fs s reqs := by
  constructor
  · rintro ⟨s', hsession, -⟩
    exact linksMade_of_session fs h hreqs hin hsession
  · exact session_of_linksMade fs h hreqs hin

/-- A file system that takes everything and keeps nothing, and how its links end. -/
def nullFiles (link : Option Errno) : FileSystem Unit where
  lstat _ _ := (none, ())
  opendir _ _ := (none, ())
  openNew _ _ _ := (.ok 3, ())
  openOld _ _ := (.ok 3, ())
  openRead _ _ := (.error .enoent, ())
  writeCalls _ _ _ := (([], .other 5), ())
  store _ _ _ := ()
  close _ _ := ()
  unlink _ _ := ()
  mkdir _ _ := (none, ())
  symlink _ _ _ := (link, ())
  utime _ _ _ := ()
  strerror
    | .enoent => ascii "No such file or directory".toList
    | .eexist => ascii "File exists".toList
    | .other _ => ascii "Permission denied".toList

/-- A link `/a` to `b` is sent, then `/c` is asked for. -/
def linkThenStat : List SyncRequest :=
  [.send (ascii "/a,41471".toList) [ascii "b".toList ++ [0]] 7, .stat (ascii "/c".toList)]

/-- The service with the bytes of a session on the null file system. -/
def nullSession (reqs : List SyncRequest) : SyncState Unit :=
  { input := reqs.flatMap SyncRequest.encode ++ (SyncRequest.quit ++ []), files := () }

theorem sync_session_null :
    ∃ s', Session (nullFiles none) (nullSession linkThenStat) linkThenStat s' ∧ s'.input = [] ∧
      fileSyncService (nullFiles none) 3 (nullSession linkThenStat) = some s' :=
  (sync_session_iff (nullFiles none) (fun _ hc => absurd hc (by simp [nullSession]))
    linkThenStat
    (by decide) rfl).mpr ⟨fun _ => ⟨_, rfl, rfl⟩, fun _ _ => ⟨trivial, fun _ _ => trivial⟩⟩

/-- **A link that cannot be made ends the session**: the reply is `FAIL`, the `DONE` of the
link and the request behind it are not read. -/
theorem failed_link_ends_session :
    (fileSyncService (nullFiles (some (.other 13))) 3 (nullSession linkThenStat)).map
        (fun s => (s.input, s.out)) =
      some (syncHeader ID_DONE 7 ++
        (syncNamed ID_STAT (ascii "/c".toList) ++ SyncRequest.quit),
        [.fail (ascii "Permission denied".toList)]) ∧
      ¬∃ s', Session (nullFiles (some (.other 13)))
        (nullSession linkThenStat) linkThenStat s' := by
  refine ⟨by decide +kernel, ?_⟩
  rintro ⟨s', hsession⟩
  cases hsession with
  | request hs =>
      have hend : (serve (nullFiles (some (.other 13))) (nullSession linkThenStat)).1 =
        false := by
        decide +kernel
      rw [hs] at hend
      exact absurd hend (by simp)

end Adbd
