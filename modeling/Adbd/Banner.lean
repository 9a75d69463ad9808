import Adbd.Pipes

/-!
# What Is Read of a Packet

`get_apacket` clears the header of a packet and leaves its buffer as it was, and the
output thread fills in `data_length` bytes of it. What is behind them is left from an
earlier use of the memory, and for a payload of `MAX_PAYLOAD` bytes it is not the packet's
at all. `handle_packet` should not look at it.

It does for one command. The checksum of a `SYNC` and the payload of a `WRTE` are taken by
their length; `OPEN` puts a terminator into its last byte before it reads the name; a
public key would have to end with a zero. But `parse_banner` takes the payload of a `CNXN`
as a string, and walks through it with `strchr` and `strtok_r` up to the first zero.

## Main definitions

* `bufferUse`: what `handle_packet` does with the buffer of its packet.
* `Core.visible`: the memory without the parts of buffers nobody will read.
* `OnlyReceived`: the outcome depends only on what was received, and nothing else is read.

## Main results

* `parseBanner_within`: a terminated banner is read up to its terminator.
* `parseBanner_reaches`: any other is read beyond its end.
* `packet_only_received_iff`: `handle_packet` only looks at what was received, exactly if a
  banner that is parsed is terminated.
-/

namespace Adbd

open Program Custody CString

/-! ### parse_banner -/

section Parse

variable {k n i fuel room : Nat} {q : Qualifiers} {m : Buf}

theorem qualOverwrite_within (hi : i ≤ k) : Within k (qualOverwrite room i) fun _ => True := by
  refine .bind (.rd hi) fun b _ => ?_
  split
  · exact .pure trivial
  · exact .bind (.strdup hi) fun _ _ => .pure trivial

/-- One property is parsed within the banner. -/
theorem parseProp_within (room : Nat) (q : Qualifiers) (hi : i ≤ k) :
    Within k (parseProp room i q) fun _ => True := by
  refine .bind (.strchr (by decide) hi) fun r hr => ?_
  cases r with
  | none => exact .pure trivial
  | some cp =>
      obtain ⟨-, hcp⟩ := hr cp rfl
      have hval {f : Option (List UInt8) → Qualifiers} : Within k (do
          let value ← qualOverwrite room (cp + 1)
          pure (f value)) fun _ => True :=
        .bind (qualOverwrite_within hcp) fun _ _ => .pure trivial
      refine .bind (.wr hcp) fun _ _ => ?_
      refine .bind (.strcmpEq (by decide) hi) fun b _ => ?_
      split
      · exact hval
      refine .bind (.strcmpEq (by decide) hi) fun b _ => ?_
      split
      · exact hval
      refine .bind (.strcmpEq (by decide) hi) fun b _ => ?_
      split
      · exact hval
      · exact .pure trivial

theorem parseProps_within (hi : i ≤ k) : Within k (parseProps room n i q) fun _ => True := by
  induction n generalizing i q with
  | zero => exact .pure trivial
  | succ n ih =>
      refine .bind (.strtokR (by decide) hi) fun r hr => ?_
      match r, hr with
      | none, _ => exact .pure trivial
      | some (key, save), hr =>
          obtain ⟨hkey, hsave⟩ := hr key save rfl
          exact .bind (parseProp_within room q hkey) fun _ _ => ih hsave

theorem bannerType_within : Within k bannerType fun _ => True := by
  have h {l : List UInt8} (hl : 0 ∉ l) : Within k (strcmpEq l 0) fun _ => True :=
    .strcmpEq hl (Nat.zero_le _)
  refine .bind (h (by decide)) fun b _ => ?_
  split
  · exact .pure trivial
  refine .bind (h (by decide)) fun b _ => ?_
  split
  · exact .pure trivial
  refine .bind (h (by decide)) fun b _ => ?_
  split
  · exact .pure trivial
  refine .bind (h (by decide)) fun b _ => ?_
  split <;> exact .pure trivial

theorem parseFields_within : Within k (parseFields room q) fun _ => True := by
  refine .bind (.strchr (by decide) (Nat.zero_le _)) fun r hr => ?_
  cases r with
  | none => exact .pure trivial
  | some cp =>
      obtain ⟨-, hcp⟩ := hr cp rfl
      refine .bind (.wr hcp) fun _ _ => .bind (.strchr (by decide) hcp) fun r hr => ?_
      cases r with
      | none => exact .pure trivial
      | some cp => exact parseProps_within (hr cp rfl).2

/-- **A banner with a zero at `k` is read up to there.** -/
theorem parseBanner_within (room : Nat) (q : Qualifiers) :
    Within k (parseBanner room q) fun _ => True :=
  .bind parseFields_within fun _ _ => .bind bannerType_within fun _ _ => .pure trivial

/-- Without a zero in front of `n`, the properties are read up to `n`. -/
theorem parseProps_reaches (hi : i ≤ n) (hf : n < i + fuel) (hr : n < room)
    (hm : Unended m i n)
    (hw : n ∉ m.written) : n ∈ ((parseProps room fuel i q).run m).2.touched := by
  induction fuel generalizing i q m with
  | zero => exact absurd hf (by omega)
  | succ fuel ih =>
      rw [parseProps, Acc.run_bind]
      obtain h | ⟨a, e, hv, hia, hae, hen, hbytes, hwritten⟩ :=
        strtokR_reaches 59 room hi (by omega) hm hw
      · exact Acc.touched_mono _ h
      generalize (strtokR 59 room i).run m = r at hv hbytes hwritten ⊢
      obtain ⟨v, m₁⟩ := r
      dsimp only at hv hbytes hwritten ⊢
      subst hv
      -- the token ends with the zero that was written at `e`, and its property stays in it
      obtain ⟨hstay, -⟩ := parseProp_within room q hae m₁ (by simp [hbytes])
      rw [Acc.run_bind]
      refine ih hen (by omega) (fun j hj hjn => ?_) fun hmem => ?_
      · rw [hstay.frame j hj, hbytes, Function.update_of_ne (by omega)]
        exact hm j (by omega) hjn
      · obtain hmem | hlt := hstay.written n hmem
        · rw [hwritten] at hmem
          obtain rfl | hmem := List.mem_cons.mp hmem
          · exact absurd hen (Nat.lt_irrefl _)
          · exact hw hmem
        · omega

/-- **A banner of `n` bytes without a zero is read beyond its end.** -/
theorem parseBanner_reaches (hr : n < room) (hm : Unended m 0 n) (hw : n ∉ m.written) :
    n ∈ ((parseBanner room q).run m).2.touched := by
  rw [parseBanner, Acc.run_bind]
  refine Acc.touched_mono _ ?_
  rw [parseFields, Acc.run_bind]
  obtain h | ⟨j, hv, -, hjn⟩ :=
    strchr_reaches 58 room (Nat.zero_le n) (by omega) hm hw
  · exact Acc.touched_mono _ h
  have hframe := strchr_frame 58 room 0 m
  generalize (strchr 58 room 0).run m = r at hv hframe ⊢
  obtain ⟨v, m₁⟩ := r
  dsimp only at hv hframe ⊢
  subst hv
  rw [Acc.run_bind, Acc.run_wr, Acc.run_bind]
  have hm₂ : Unended (m₁.put j 0) (j + 1) n := by
    intro x hx hxn
    rw [Buf.put_bytes_of_ne _ _ (by omega), hframe.1]
    exact hm x (Nat.zero_le _) hxn
  have hw₂ : n ∉ (m₁.put j 0).written := by
    intro hmem
    obtain rfl | hmem := List.mem_cons.mp hmem
    · exact absurd hjn (Nat.lt_irrefl _)
    · exact hw (hframe.2 ▸ hmem)
  obtain h | ⟨j', hv', hj', hjn'⟩ :=
    strchr_reaches 58 room (i := j + 1) hjn (by omega) hm₂ hw₂
  · exact Acc.touched_mono _ h
  have hframe' := strchr_frame 58 room (j + 1) (m₁.put j 0)
  generalize (strchr 58 room (j + 1)).run (m₁.put j 0) = r at hv' hframe' ⊢
  obtain ⟨v, m₂⟩ := r
  dsimp only at hv' hframe' ⊢
  subst hv'
  refine parseProps_reaches hjn' (by omega) hr (fun x hx hxn => ?_)
    (by rw [hframe'.2]; exact hw₂)
  rw [hframe'.1]
  exact hm₂ x (by omega) hxn

end Parse

/-! ### The buffer of a packet -/

variable {c : Core} {s : System} {io : Io} {t : TId} {p : APacket} {data data' : List UInt8}
  {n i : Nat} {x : SockId}

/-- The name of an `OPEN` with `len` bytes: its last byte is overwritten by a terminator, the
first one if there is none, and the string is read. -/
def openName (room len : Nat) : Acc (List UInt8) := do
  wr (len - 1) 0
  strdup room 0

/-- Whether `handle_offline(t)` returns once `connection_state` is `CS_OFFLINE`. -/
def Core.offlineReturns (c : Core) (t : TId) : Bool :=
  match (do
    modTransport t fun T => { T with connectionState := .offline }
    handleOffline t : M Unit) c with
  | .ok _ => true
  | .error _ => false

/-- Whether a `CNXN` gets as far as `parse_banner`. -/
def Core.parses (c : Core) (t : TId) : Bool :=
  (c.transports t).any fun T => T.connectionState = .offline || c.offlineReturns t

/-- **What `handle_packet(p, t)` does with the buffer of `p`**: the checksum `send_packet`
computes of a `SYNC`, the banner of a `CNXN`, the name of an `OPEN`, and the payload of a
`WRTE`. The other commands do not use it. -/
def bufferUse (c : Core) (t : TId) (p : APacket) : Acc Unit :=
  let len := p.msg.dataLength.toNat
  let room := p.data.length + 1
  let online := (c.transports t).any (·.online)
  if p.msg.command = A_SYNC then
    if p.msg.arg0 ≠ 0 ∨ c.offlineReturns t = true then do
      let _ ← readN len 0
    else pure ()
  else if p.msg.command = A_CNXN then
    if c.parses t then do
      let _ ← parseBanner room ((c.transports t).elim {} (·.quals))
    else pure ()
  else if p.msg.command = A_OPEN then
    if online then do
      let _ ← openName room len
    else pure ()
  else if p.msg.command = A_WRTE then
    if online ∧ (c.find p.msg.arg1).isSome then do
      let _ ← readN len 0
    else pure ()
  else pure ()

/-- The bytes of a payload that are read are those the model takes. -/
theorem payload_value (h : n ≤ data.length) :
    ((readN n 0).run (.ofList data)).1 = data.take n := by
  rw [readN_value rfl (by omega)]
  rfl

/-- A string ends where a zero is written into it. -/
theorem takeWhile_set_zero (l : List UInt8) (i : Nat) :
    (l.set i 0).takeWhile (· ≠ 0) = (l.take i).takeWhile (· ≠ 0) := by
  induction l generalizing i with
  | nil => simp
  | cons b l ih =>
      cases i with
      | zero => simp
      | succ i => simp only [List.set_cons_succ, List.take_succ_cons, List.takeWhile_cons, ih]

/-- The name of an `OPEN` is the one the model takes. -/
theorem openName_value :
    ((openName (data.length + 1) n).run (.ofList data)).1 = cstr (data.take (n - 1)) := by
  have hbytes : ((Buf.ofList data).put (n - 1) 0).bytes =
      (Buf.ofList (data.set (n - 1) 0)).bytes := by
    funext j
    by_cases hj : j = n - 1
    · subst hj
      by_cases hlen : n - 1 < data.length <;> simp [Buf.put, Buf.ofList, hlen]
    · rw [Buf.put_bytes_of_ne _ _ hj]
      simp [Buf.ofList, List.getElem?_set_ne (Ne.symm hj)]
  rw [openName, Acc.run_bind, Acc.run_wr, strdup_value hbytes (by simp)]
  exact takeWhile_set_zero data (n - 1)

/-- A zero among the first `n` bytes. -/
theorem exists_zero_of_mem (h : (0 : UInt8) ∈ data.take n) :
    ∃ k < n, (Buf.ofList data).bytes k = 0 := by
  obtain ⟨k, hk, hk0⟩ := List.mem_take_iff_getElem.mp h
  refine ⟨k, by omega, ?_⟩
  simp [Buf.ofList, hk0, show k < data.length by omega]

/-- Bytes among the first `n`, none of which is a zero. -/
theorem unended_of_not_mem (h : (0 : UInt8) ∉ data.take n) (hn : n ≤ data.length) :
    Unended (.ofList data) 0 n := by
  intro j _ hj h0
  refine h (List.mem_take_iff_getElem.mpr ⟨j, by omega, ?_⟩)
  have hlt : j < data.length := by omega
  simpa [Buf.ofList, hlt] using h0

/-- **Nothing behind the payload is read** if a banner that is parsed is terminated. -/
theorem bufferUse_touched
    (hz : p.msg.command = A_CNXN → c.parses t = true → 0 ∈ p.data.take p.msg.dataLength.toNat)
    (hi : i ∈ ((bufferUse c t p).run (.ofList p.data)).2.touched) :
    i < p.msg.dataLength.toNat := by
  have hread (h : i ∈ (Acc.run (do let _ ← readN p.msg.dataLength.toNat 0)
      (.ofList p.data)).2.touched) : i < p.msg.dataLength.toNat := by
    rw [Acc.run_bind, Acc.run_pure] at h
    obtain h | h := readN_touched h
    · cases h
    · omega
  unfold bufferUse at hi
  dsimp only at hi
  split at hi
  · split at hi
    · exact hread hi
    · cases hi
  split at hi
  · next hc =>
    split at hi
    · next hp =>
      obtain ⟨k, hk, hk0⟩ := exists_zero_of_mem (hz hc hp)
      rw [Acc.run_bind, Acc.run_pure] at hi
      obtain ⟨hstay, -⟩ := parseBanner_within (p.data.length + 1)
        ((c.transports t).elim {} (·.quals)) (.ofList p.data) hk0
      obtain h | h := hstay.touched i hi
      · cases h
      · omega
    · cases hi
  split at hi
  · split at hi
    · rw [Acc.run_bind, Acc.run_pure, openName, Acc.run_bind, Acc.run_wr] at hi
      dsimp only at hi
      -- the terminator was written, so it does not count
      obtain h | h := Acc.not_written_of_touched (strdup (p.data.length + 1) 0) hi
      · cases h
      have hne : i ≠ p.msg.dataLength.toNat - 1 := by
        rintro rfl
        exact h (by simp [Buf.put])
      obtain ⟨hstay, -⟩ := Within.strdup (n := p.data.length + 1)
        (Nat.zero_le (p.msg.dataLength.toNat - 1))
        ((Buf.ofList p.data).put (p.msg.dataLength.toNat - 1) 0) (by simp [Buf.put])
      obtain h | h := hstay.touched i hi
      · cases h
      · omega
    · cases hi
  split at hi
  · split at hi
    · exact hread hi
    · cases hi
  · cases hi

/-! ### The outcome -/

/-- What the input thread will read of a packet: `data_length` bytes. -/
def APacket.sentPart (p : APacket) : APacket :=
  { p with data := p.data.take p.msg.dataLength.toNat }

/-- What will be read of a packet in the queue of a socket: the bytes up to `ptr + len`. -/
def APacket.queuedPart (p : APacket) :
    APacket := { p with data := p.data.take (p.ptr + p.len) }

/-- The memory without the parts of buffers that nobody will read. -/
def Core.visible (c : Core) : Core :=
  { c with
    sockets := fun x => (c.sockets x).map fun a =>
      { a with queue := a.queue.map (·.queuedPart) }
    transports := fun t => (c.transports t).map fun T =>
      { T with mainToIo := T.mainToIo.map (·.sentPart) } }

/-- Two calls end with the same fault, or return in memories that only differ in what nobody
will read. -/
def SameOutcome (r r' : Except Fault (Unit × Core)) : Prop :=
  r.map (·.2.visible) = r'.map (·.2.visible)

/-- **`handle_packet(p, t)`, called in `c`, only looks at what was received**: with another
buffer that holds the same payload it ends the same way, and it reads no byte behind the
payload that it has not written. -/
structure OnlyReceived (c : Core) (t : TId) (p : APacket) : Prop where
  same : ∀ data' : List UInt8, data'.length = p.data.length →
    data'.take p.msg.dataLength.toNat = p.data.take p.msg.dataLength.toNat →
    SameOutcome (handlePacket p t c) (handlePacket { p with data := data' } t c)
  reads : ∀ i ∈ ((bufferUse c t p).run (.ofList p.data)).2.touched, i < p.msg.dataLength.toNat

theorem SameOutcome.of_eq {r r' : Except Fault (Unit × Core)} (h : r = r') :
    SameOutcome r r' := by
  rw [h, SameOutcome]

/-- The same outcome after a common first part. -/
theorem SameOutcome.bind {α : Type} {m : M α} {f g : α → M Unit}
    (h : ∀ a c', m c = .ok (a, c') → SameOutcome (f a c') (g a c')) :
    SameOutcome ((m >>= f) c) ((m >>= g) c) := by
  cases hm : m c with
  | error e => exact .of_eq (by rw [bind_error hm, bind_error hm])
  | ok r =>
      obtain ⟨a, c'⟩ := r
      rw [bind_ok hm, bind_ok hm]
      exact h a c' hm

/-- Packets in the pipe to the input thread that differ behind their payloads. -/
theorem visible_push {T : ATransport} (q q' : APacket) (h : q.sentPart = q'.sentPart) :
    (c.push t T q).visible = (c.push t T q').visible := by
  apply Core.ext
  case transports =>
    funext t'
    by_cases ht : t' = t
    · subst ht
      simp [Core.visible, Core.push, Core.putTransport, h]
    · simp [Core.visible, Core.push, Core.putTransport, ht]
  all_goals rfl

/-- Packets in a queue that differ behind what is left to write. -/
theorem visible_link {a : ASocket} {q q' : APacket} (h : q.queuedPart = q'.queuedPart) :
    (c.link x a q).visible = (c.link x a q').visible := by
  apply Core.ext
  case sockets =>
    funext y
    by_cases hy : y = x
    · subst hy
      simp [Core.visible, Core.link, Core.putSock, h]
    · simp [Core.visible, Core.link, Core.putSock, hy]
  all_goals rfl

section TwoBuffers

variable (hd : data'.take p.msg.dataLength.toNat = p.data.take p.msg.dataLength.toNat)
include hd

/-- `send_packet` of two packets with the same payload. -/
theorem sendPacket_same {t : Option TId} {r : Option SockId} :
    SameOutcome (sendPacket p t r c) (sendPacket { p with data := data' } t r c) := by
  unfold sendPacket
  rw [hd]
  cases t with
  | none => exact .of_eq rfl
  | some t =>
      refine .bind fun T c' hT => ?_
      rw [bind_ok (m := MonadState.get) rfl, bind_ok (m := MonadState.get) rfl]
      split
      · obtain ⟨rfl, hT'⟩ := getTransport_ok hT
        rw [bind_ok (modTransport_eq hT'), bind_ok (modTransport_eq hT')]
        simp only [SameOutcome, note, modify, modifyGet, MonadStateOf.modifyGet,
          StateT.modifyGet, pure, Except.pure, Except.map]
        have hv := visible_push (c := c') (t := t) (T := T)
          { p with msg := { p.msg with
            magic := p.msg.command ^^^ 0xffffffff
            dataCheck := dataSum (p.data.take p.msg.dataLength.toNat) } }
          { p with data := data', msg := { p.msg with
            magic := p.msg.command ^^^ 0xffffffff
            dataCheck := dataSum (p.data.take p.msg.dataLength.toNat) } }
          (by simp [APacket.sentPart, hd])
        exact congrArg (fun v : Core => Except.ok (v.note _)) hv
      · exact .of_eq rfl

/-- `local_socket_enqueue` of two packets with the same payload, and what is done if it was
taken at once. -/
theorem localSocketEnqueue_same {k : Int → M Unit} (hk : k 1 = pure ()) :
    SameOutcome
      ((localSocketEnqueue x { p with len := p.msg.dataLength.toNat } >>= k) c)
      ((localSocketEnqueue x
        { p with data := data', len := p.msg.dataLength.toNat } >>= k) c) := by
  have hbytes : APacket.bytes
      { p with data := data', len := p.msg.dataLength.toNat, ptr := 0 } =
      APacket.bytes { p with len := p.msg.dataLength.toNat, ptr := 0 } := by
    simpa [APacket.bytes] using hd
  have hqueued {n : Nat} (hn : n ≤ p.msg.dataLength.toNat) : APacket.queuedPart
      (APacket.advance { p with len := p.msg.dataLength.toNat, ptr := 0 } n) =
      APacket.queuedPart
        (APacket.advance
          { p with data := data', len := p.msg.dataLength.toNat, ptr := 0 } n) := by
    simp [APacket.queuedPart, APacket.advance, Nat.add_sub_cancel' hn, hd]
  have hlink {c : Core} {a : ASocket} {n : Nat} (ha : c.sockets x = some a)
      (hn : n ≤ p.msg.dataLength.toNat) : SameOutcome
      ((do
        linkTail x (APacket.advance { p with len := p.msg.dataLength.toNat, ptr := 0 } n)
        k 1) c)
      ((do
        linkTail x
          (APacket.advance { p with data := data', len := p.msg.dataLength.toNat, ptr := 0 } n)
        k 1) c) := by
    have heq (q : APacket) : linkTail x q c = .ok ((), c.link x a q) := by
      rw [linkTail, bind_ok (modSock_eq ha)]
      rfl
    rw [bind_ok (heq _), bind_ok (heq _), hk]
    exact congrArg Except.ok (visible_link (hqueued hn))
  rw [localSocketEnqueue, localSocketEnqueue]
  simp only [bind_assoc, hbytes]
  refine .bind fun a c₁ ha => ?_
  obtain ⟨rfl, ha⟩ := getSock_ok ha
  rw [bind_ok (m := note _) rfl, bind_ok (m := note _) rfl]
  by_cases hq : a.queue ≠ []
  · rw [if_pos hq, if_pos hq]
    simp only [bind_assoc, pure_bind]
    exact hlink (n := 0) ha (Nat.zero_le _)
  · rw [if_neg hq, if_neg hq]
    simp only [bind_assoc]
    refine .bind fun c₂ c₂' hget => ?_
    obtain ⟨rfl, rfl⟩ := Prod.mk.inj (Except.ok.inj hget)
    rw [bind_ok (m := setWrites _) rfl, bind_ok (m := setWrites _) rfl,
      bind_ok (m := note _) rfl, bind_ok (m := note _) rfl]
    split
    · exact .of_eq rfl
    · exact .of_eq rfl
    · simp only [bind_assoc, pure_bind]
      refine hlink ha ?_
      have happ := congrArg List.length (writeLoop_append c₁.io.writes (APacket.bytes
        { p with len := p.msg.dataLength.toNat, ptr := 0 }))
      rw [List.length_append] at happ
      have hlen : (APacket.bytes { p with len := p.msg.dataLength.toNat, ptr := 0 }).length ≤
          p.msg.dataLength.toNat := List.length_take_le ..
      exact Nat.le_trans (happ ▸ Nat.le_add_right _ _) hlen

/-- The payload of a `WRTE` for a socket of the list. -/
theorem deliverWrte_same (hg : Graph c) (hx : x ∈ c.localSocketList) :
    SameOutcome (deliverWrte p t x c) (deliverWrte { p with data := data' } t x c) := by
  obtain ⟨a, ha, hka, -⟩ := (hg.mem_list x).mp hx
  have ha' : (c.note (.delivered t x p.msg)).sockets x = some a := ha
  rw [deliverWrte, deliverWrte, bind_ok (m := note _) rfl, bind_ok (m := note _) rfl]
  simp only [callEnqueue, bind_assoc]
  rw [bind_ok (getSock_eq ha'), bind_ok (getSock_eq ha')]
  cases hk : a.kind with
  | localSocket | localNotify => exact localSocketEnqueue_same hd rfl
  | jdwpSocket | jdwpTracker => exact .of_eq rfl
  | remoteSocket | smartSocket => simp [hk, SockKind.isEnd] at hka

/-- The `A_WRTE` case. -/
theorem handleWrte_same (hg : Graph c) :
    SameOutcome (handleWrte p t c) (handleWrte { p with data := data' } t c) := by
  refine .bind fun r c' hfind => ?_
  obtain ⟨rfl, rfl⟩ : r = c.find p.msg.arg1 ∧ c' = c :=
    wp_ok (Q := fun r c' => r = c.find p.msg.arg1 ∧ c' = c) (E := fun _ => True)
      ((wp_findLocalSocket hg).mpr ⟨rfl, rfl⟩) hfind
  cases hx : c'.find p.msg.arg1 with
  | none => exact .of_eq rfl
  | some x => exact deliverWrte_same hd hg (List.mem_of_find?_eq_some hx)

/-- The `A_SYNC` case. -/
theorem handleSync_same :
    SameOutcome (handleSync p t c) (handleSync { p with data := data' } t c) := by
  rw [handleSync, handleSync]
  dsimp only
  split
  · exact sendPacket_same hd
  · exact .bind fun _ _ _ => .bind fun _ _ _ => sendPacket_same hd

/-- Two banners that are the same up to their terminator. -/
theorem parseBanner_same (hlen : data'.length = p.data.length)
    (hz : 0 ∈ p.data.take p.msg.dataLength.toNat) (T : ATransport) :
    T.parseBanner data' = T.parseBanner p.data := by
  have hagree : Acc.Agree p.msg.dataLength.toNat (.ofList p.data) (.ofList data') := by
    refine ⟨rfl, rfl, fun i hi => ?_⟩
    obtain hi | hi := hi
    · have h := congrArg (fun l => l[i]?) hd
      simp only [List.getElem?_take, hi, if_true] at h
      simp [Buf.ofList, List.getD_eq_getElem?_getD, h]
    · cases hi
  obtain ⟨k, hk, hk0⟩ := exists_zero_of_mem hz
  obtain ⟨hstay, -⟩ := parseBanner_within (p.data.length + 1) T.quals _ hk0
  have hrun := Acc.run_agree (Adbd.parseBanner (p.data.length + 1) T.quals) hagree
    fun i hi => by
    obtain h | h := hstay.touched i hi
    · cases h
    · omega
  simp only [ATransport.parseBanner, hlen, hrun.1]

/-- The `A_CNXN` case. -/
theorem handleCnxn_same (hlen : data'.length = p.data.length)
    (hz : c.parses t = true → 0 ∈ p.data.take p.msg.dataLength.toNat) :
    handleCnxn { p with data := data' } t c = handleCnxn p t c := by
  by_cases hp : c.parses t = true
  · have hT := parseBanner_same hd hlen (hz hp)
    simp only [handleCnxn, hT]
  · -- the transport goes offline first, and that does not return
    refine bind_congr_of fun T c' hT => ?_
    obtain ⟨rfl, hT⟩ := getTransport_ok hT
    have hst : T.connectionState ≠ .offline ∧ c'.offlineReturns t = false := by
      simpa [Core.parses, hT] using hp
    obtain ⟨e, he⟩ : ∃ e, (do
        modTransport t fun T => { T with connectionState := .offline }
        handleOffline t : M Unit) c' = .error e := by
      have hoff := hst.2
      rw [Core.offlineReturns] at hoff
      split at hoff
      · cases hoff
      · next e he => exact ⟨e, he⟩
    have hstop (k : Unit → M Unit) : (do
        modTransport t fun T => { T with connectionState := .offline }
        let r ← handleOffline t
        k r) c' = .error e := by
      rw [← bind_assoc]
      exact bind_error he
    dsimp only
    rw [if_pos hst.1, if_pos hst.1]
    exact (hstop _).trans (hstop _).symm

end TwoBuffers

/-- **Two packets with the same payload end the same way** if a banner that is parsed is
terminated. -/
theorem handlePacket_same (hg : Graph c) (hlen : data'.length = p.data.length)
    (hd : data'.take p.msg.dataLength.toNat = p.data.take p.msg.dataLength.toNat)
    (hz : p.msg.command = A_CNXN → c.parses t = true →
      0 ∈ p.data.take p.msg.dataLength.toNat) :
    SameOutcome (handlePacket p t c) (handlePacket { p with data := data' } t c) := by
  rw [handlePacket, handlePacket]
  refine .bind fun T c' hT => ?_
  obtain ⟨rfl, hT⟩ := getTransport_ok hT
  dsimp only
  split
  · exact handleSync_same hd
  split
  · split
    · exact handleWrte_same hd hg
    · exact .of_eq rfl
  · have hcmd : handleCommand { p with data := data' } t T c' = handleCommand p t T c' := by
      rw [handleCommand, handleCommand]
      dsimp only
      split
      · next hc => exact handleCnxn_same hd hlen (hz hc)
      · have htake : data'.take (p.msg.dataLength.toNat - 1) =
            p.data.take (p.msg.dataLength.toNat - 1) := by
          have h := congrArg (List.take (p.msg.dataLength.toNat - 1)) hd
          simpa [List.take_take, Nat.min_eq_left (Nat.sub_le _ _)] using h
        simp only [handleOpen, htake]
        rfl
    refine .of_eq ?_
    cases hm : handleCommand p t T c' with
    | error e => rw [bind_error hm, bind_error (hcmd.trans hm)]
    | ok r =>
        obtain ⟨u, c₁⟩ := r
        rw [bind_ok hm, bind_ok (hcmd.trans hm)]
        rfl

/-- The packets `handle_packet` gets have as many bytes as their headers say. -/
theorem System.Handles.accepted {c : Core} (hs : Reachable s) (hh : s.Handles io t p c) :
    Accepted p.msg p.data := by
  obtain ⟨c₁, T, rest, hr, hT, -, hq, -⟩ := hh
  rw [hr.transports_eq] at hT
  exact hs.accepted hT (by simp [hq])

/-- **`handle_packet` only looks at what was received exactly if a banner that is parsed is
terminated.** -/
theorem packet_only_received_iff (hs : Reachable s) (hh : s.Handles io t p c) :
    OnlyReceived c t p ↔ (p.msg.command = A_CNXN → c.parses t = true →
      0 ∈ p.data.take p.msg.dataLength.toNat) := by
  constructor
  · intro h hc hp
    by_contra hz
    have hlen := (hh.accepted hs).2.2.1
    refine Nat.lt_irrefl p.msg.dataLength.toNat (h.reads _ ?_)
    have hne : p.msg.command ≠ A_SYNC := by rw [hc]; decide
    simp only [bufferUse, if_neg hne, if_pos hc, if_pos hp]
    rw [Acc.run_bind, Acc.run_pure]
    exact parseBanner_reaches (by omega) (unended_of_not_mem hz hlen) (by simp [Buf.ofList])
  · intro hz
    exact ⟨fun data' hlen hd => handlePacket_same (hh.wf hs.wf).graph hlen hd hz,
      fun i hi => bufferUse_touched hz hi⟩

/-- The remote of `t` has sent a `CNXN` of `len` bytes, and its callback is next. What is
behind them in `data` was in the buffer before. -/
def banner (t : TId) (len : Nat) (data : List UInt8) : List Action :=
  [.output t
    (some (wireMsg A_CNXN A_VERSION (UInt32.ofNat MAX_PAYLOAD) (data.take len), data)) false,
    .select [(.transport t, Events.onlyRead)]]

/-- A banner that is terminated. -/
theorem packet_only_received_terminated : ∃ s p c, Reachable s ∧ s.Handles {} 0 p c ∧
    p.msg.command = A_CNXN ∧ c.parses 0 = true ∧ OnlyReceived c 0 p := by
  obtain ⟨s, hs, hP⟩ := exists_reachable
    (connect 0 .usb ++ banner 0 7 (ascii ['h', 'o', 's', 't', ':', ':'] ++ [0, 1, 2]))
    (P := fun s => (s.packetCall {} 0).any fun (r : APacket × Core) =>
      decide (r.1.msg.command = A_CNXN) &&
      r.2.parses 0 && decide (0 ∈ r.1.data.take r.1.msg.dataLength.toNat)) (by decide +kernel)
  obtain ⟨⟨p, c⟩, hcall, hP⟩ := (Option.any_eq_true _ _).mp hP
  simp only [Bool.and_eq_true, decide_eq_true_eq] at hP
  obtain ⟨⟨hc, hp⟩, hz⟩ := hP
  have hh := s.handles_of_packetCall hcall
  exact ⟨s, p, c, hs, hh, hc, hp, (packet_only_received_iff hs hh).mpr fun _ _ => hz⟩

/-- The state in which a call leaves the first transport. -/
def outcomeState (r : Except Fault (Unit × Core)) : Option ConnState :=
  r.toOption.bind fun x => (x.2.transports 0).map (·.connectionState)

theorem SameOutcome.state {r r' : Except Fault (Unit × Core)} (h : SameOutcome r r') :
    outcomeState r = outcomeState r' := by
  have hvisible (c : Core) : (c.visible.transports 0).map (·.connectionState) =
      (c.transports 0).map (·.connectionState) := by
    simp only [Core.visible, Option.map_map]
    rfl
  cases r with
  | error f =>
      cases r' with
      | error f' => rfl
      | ok x' => cases h
  | ok x =>
      cases r' with
      | error f' => cases h
      | ok x' =>
          have hsame : x.2.visible = x'.2.visible := Except.ok.inj h
          simp only [outcomeState, Except.toOption, Option.bind_some]
          rw [← hvisible, hsame, hvisible]

/-- A banner of three bytes, `dev`, in a buffer that goes on with `ice` and a zero: the
remote is taken for a device, and with another buffer for a host. -/
theorem stale_bytes_decide : ∃ s p c, Reachable s ∧ s.Handles {} 0 p c ∧
    p.msg.dataLength = 3 ∧ ¬OnlyReceived c 0 p := by
  let other : List UInt8 := ascii ['d', 'e', 'v'] ++ [0, 0, 0, 0]
  obtain ⟨s, hs, hP⟩ := exists_reachable
    (connect 0 .usb ++ banner 0 3 (ascii ['d', 'e', 'v', 'i', 'c', 'e'] ++ [0]))
    (P := fun s => (s.packetCall {} 0).any fun (r : APacket × Core) =>
      decide (r.1.msg.dataLength = 3) &&
      decide (other.length = r.1.data.length ∧ other.take 3 = r.1.data.take 3) &&
      decide (outcomeState (handlePacket r.1 0 r.2) ≠
        outcomeState (handlePacket { r.1 with data := other } 0 r.2))) (by decide +kernel)
  obtain ⟨⟨p, c⟩, hcall, hP⟩ := (Option.any_eq_true _ _).mp hP
  simp only [Bool.and_eq_true, decide_eq_true_eq] at hP
  obtain ⟨⟨hlen, hother⟩, hP⟩ := hP
  refine ⟨s, p, c, hs, s.handles_of_packetCall hcall, hlen, fun h => hP ?_⟩
  exact (h.same other hother.1 (by rw [hlen]; exact hother.2)).state

end Adbd
