import Adbd.Credit

/-!
# Acknowledging What Was Received

A `WRTE` of the host is acknowledged when its payload was written to the descriptor of the
local socket: by `handle_packet` if `local_socket_enqueue` could write all of it at once,
else by `remote_socket_ready` when the `FDE_WRITE` branch of `local_socket_event_func` has
emptied the queue. The second place sends one `OKAY` however many packets the queue held,
so the two agree only for a host that sends no `WRTE` while another one is unacknowledged.
And `find_local_socket` looks for the local id alone, so a `WRTE` of another host is taken for
one of the stream; the two places answer it to different hosts.

The property of a stream is one of the notes about its socket alone, together with the
queue of the socket; it is stated and maintained on the list of notes.

## Main definitions

* `unacked`: the `WRTE`s received that were not answered yet.
* `Acking`: the notes about a socket, and what they say about its `OKAY`s.
* `HostAwaits`: the host waits for the `OKAY` before it sends another `WRTE`.

## Main results

* `Task.May.acking`: every operation keeps `Acking`.
* `receive_acknowledgement`: over whole runs.
* `foreign_wrte_answered`: it takes a host that names the ids of its own streams.
-/

namespace Adbd

open Program Custody

variable {c c' e : Core} {w w' : Work} {o : Op} {x : SockId} {a a' : ASocket} {s s' : System}

/-! ### Notes -/

/-- A `WRTE` was received. -/
def Obs.isReceipt : Obs → Bool
  | .delivered _ _ m => m.command = A_WRTE
  | _ => false

/-- The payload of a `WRTE` was written completely. -/
def Obs.isCompletion : Obs → Bool
  | .completed _ => true
  | _ => false

/-- An `OKAY` was sent. -/
def Obs.isAck : Obs → Bool
  | .sent _ _ m => m.command = A_OKAY
  | _ => false

/-- The payload an observation says `local_socket_enqueue` was handed. -/
def Obs.payload : Obs → Option (List UInt8)
  | .taken _ bs => some bs
  | _ => none

/-- The `WRTE`s that were received and not answered, with the newest note first. -/
def unacked : List Obs → Nat
  | [] => 0
  | n :: l => if n.isReceipt then unacked l + 1 else if n.isAck then unacked l - 1
      else unacked l

/-- The notes since the stream of `x` was opened. -/
def sinceOpened (x : SockId) (l : List Obs) : List Obs := l.takeWhile (· ≠ .opened x)

/-- The bytes `local_socket_enqueue` was handed, in order. -/
def takenBytes (l : List Obs) : List UInt8 := (l.filterMap Obs.payload).reverse.flatten

/-- The bytes `adb_write` took, in order. -/
def writtenBytes (l : List Obs) : List UInt8 := (l.filterMap Obs.bytes).reverse.flatten

/-- **The acknowledgements of a local socket** `x` with the record `a`, whose peer is the
remote socket with the transport and id `far`, according to the notes `l` about it. -/
structure Acking (x : SockId) (a : ASocket) (far : Option (TId × UInt32)) (l : List Obs) :
    Prop where
  /-- at most one packet waits to be written, and only while a `WRTE` is unanswered -/
  short : a.queue.length ≤ 1
  waits : a.queue ≠ [] → 0 < unacked l
  /-- what was received is written completely, or waits -/
  ledger : .writeFailed x ∉ l →
    l.countP Obs.isReceipt = l.countP Obs.isCompletion + a.queue.length
  bytes : .writeFailed x ∉ l → takenBytes l = writtenBytes l ++ unwritten a.queue
  /-- on an opened stream every payload written completely was answered once -/
  exact : .opened x ∈ l →
    (sinceOpened x l).countP Obs.isAck = (sinceOpened x l).countP Obs.isCompletion
  /-- and no `OKAY` came before the last byte was written -/
  order : .opened x ∈ l → ∀ l', l' <:+ sinceOpened x l →
    l'.countP Obs.isAck ≤ l'.countP Obs.isCompletion
  ids : .opened x ∈ l → ∀ t m, .sent t (some x) m ∈ sinceOpened x l → m.command = A_OKAY →
    m.arg0 = a.id ∧ far = some (t, m.arg1)

/-! ### Extending the notes -/

theorem sinceOpened_append {l l' : List Obs} (h : .opened x ∉ l') :
    sinceOpened x (l' ++ l) = l' ++ sinceOpened x l := by
  rw [sinceOpened, List.takeWhile_append_of_pos]
  · rfl
  · intro n hn
    have hne : n ≠ .opened x := by
      rintro rfl
      exact h hn
    simpa using hne

@[simp] theorem takenBytes_nil : takenBytes [] = [] := rfl

@[simp] theorem writtenBytes_nil : writtenBytes [] = [] := rfl

@[simp] theorem takenBytes_cons (n : Obs) (l : List Obs) :
    takenBytes (n :: l) = takenBytes l ++ n.payload.getD [] := by
  cases h : n.payload <;> simp [takenBytes, h]

@[simp] theorem writtenBytes_cons (n : Obs) (l : List Obs) :
    writtenBytes (n :: l) = writtenBytes l ++ n.bytes.getD [] := by
  cases h : n.bytes <;> simp [writtenBytes, h]

theorem takenBytes_append (l l' : List Obs) :
    takenBytes (l' ++ l) = takenBytes l ++ takenBytes l' := by
  simp [takenBytes, List.filterMap_append]

theorem writtenBytes_append (l l' : List Obs) :
    writtenBytes (l' ++ l) = writtenBytes l ++ writtenBytes l' := by
  simp [writtenBytes, List.filterMap_append]

/-- Notes without a receipt or an `OKAY` leave the unanswered `WRTE`s as they are. -/
theorem unacked_append {l l' : List Obs}
    (h : ∀ n ∈ l', n.isReceipt = false ∧ n.isAck = false) :
    unacked (l' ++ l) = unacked l := by
  induction l' with
  | nil => rfl
  | cons n l' ih =>
      obtain ⟨hr, ha⟩ := h n (List.mem_cons_self ..)
      rw [List.cons_append, unacked, hr, ha]
      exact ih fun k hk => h k (List.mem_cons_of_mem _ hk)

/-- A suffix of an appended list. -/
theorem countP_suffix_append {l l' k : List Obs} (hk : k <:+ l' ++ l) {p q : Obs → Bool}
    (hl : ∀ k, k <:+ l → k.countP p ≤ k.countP q)
    (hl' : ∀ k, k <:+ l' → k.countP p ≤ k.countP q) :
    k.countP p ≤ k.countP q := by
  induction l' with
  | nil => exact hl k hk
  | cons n l' ih =>
      rw [List.cons_append, List.suffix_cons_iff] at hk
      rcases hk with rfl | hk
      · have h1 := hl' (n :: l') (List.suffix_refl _)
        have h2 := hl l (List.suffix_refl _)
        rw [← List.cons_append, List.countP_append, List.countP_append]
        exact Nat.add_le_add h1 h2
      · exact ih hk fun k hk => hl' k (hk.trans (List.suffix_cons ..))

/-- What has to be said of new notes, and of the changed record. -/
theorem Acking.append {l l' : List Obs} {far far' : Option (TId × UInt32)}
    (h : Acking x a far l)
    (hno : .opened x ∉ l') (hid : a'.id = a.id) (hfar : .opened x ∈ l → far' = far)
    (hshort : a'.queue.length ≤ 1) (hwaits : a'.queue ≠ [] → 0 < unacked (l' ++ l))
    (hledger : .writeFailed x ∉ l' →
      l'.countP Obs.isReceipt + a.queue.length = l'.countP Obs.isCompletion + a'.queue.length)
    (hbytes : .writeFailed x ∉ l' →
      unwritten a.queue ++ takenBytes l' = writtenBytes l' ++ unwritten a'.queue)
    (hexact : .opened x ∈ l → l'.countP Obs.isAck = l'.countP Obs.isCompletion)
    (horder : .opened x ∈ l → ∀ k, k <:+ l' → k.countP Obs.isAck ≤ k.countP Obs.isCompletion)
    (hids : .opened x ∈ l → ∀ t m, .sent t (some x) m ∈ l' → m.command = A_OKAY →
      m.arg0 = a.id ∧ far = some (t, m.arg1)) :
    Acking x a' far' (l' ++ l) := by
  have hopen (ho : .opened x ∈ l' ++ l) : .opened x ∈ l := by
    rw [List.mem_append] at ho
    exact ho.resolve_left hno
  refine ⟨hshort, hwaits, fun hf => ?_, fun hf => ?_, fun ho => ?_, fun ho k hk => ?_,
    fun ho t m hm hc => ?_⟩
  · rw [List.mem_append, not_or] at hf
    rw [List.countP_append, List.countP_append]
    have h1 := hledger hf.1
    have h2 := h.ledger hf.2
    omega
  · rw [List.mem_append, not_or] at hf
    rw [takenBytes_append, writtenBytes_append, h.bytes hf.2, List.append_assoc, hbytes hf.1,
      List.append_assoc]
  · rw [sinceOpened_append hno, List.countP_append, List.countP_append, h.exact (hopen ho),
      hexact (hopen ho)]
  · rw [sinceOpened_append hno] at hk
    exact countP_suffix_append hk (h.order (hopen ho)) (horder (hopen ho))
  · rw [sinceOpened_append hno, List.mem_append] at hm
    rw [hid, hfar (hopen ho)]
    exact hm.elim (fun hm => hids (hopen ho) t m hm hc) fun hm => h.ids (hopen ho) t m hm hc

/-- Notes that say nothing about payloads and their answers. -/
def Obs.Idle (x : SockId) (n : Obs) : Prop :=
  n ≠ .opened x ∧ n.isReceipt = false ∧ n.isCompletion = false ∧ n.isAck = false ∧
    n.payload = none ∧ n.bytes = none

/-- Such notes, and a change of the record that keeps id and queue. -/
theorem Acking.idle {l k : List Obs} {far far' : Option (TId × UInt32)} (h : Acking x a far l)
    (hl : ∀ n ∈ k, n.Idle x) (hid : a'.id = a.id) (hq : a'.queue = a.queue)
    (hfar : .opened x ∈ l → far' = far) : Acking x a' far' (k ++ l) := by
  have hr : k.countP Obs.isReceipt = 0 :=
    List.countP_eq_zero.mpr fun n hn => by simp [(hl n hn).2.1]
  have hc : k.countP Obs.isCompletion = 0 :=
    List.countP_eq_zero.mpr fun n hn => by simp [(hl n hn).2.2.1]
  have ha (m : List Obs) (hm : m <:+ k) : m.countP Obs.isAck = 0 :=
    List.countP_eq_zero.mpr fun n hn => by simp [(hl n (hm.subset hn)).2.2.2.1]
  have ht : takenBytes k = [] := by
    rw [takenBytes, List.filterMap_eq_nil_iff.mpr fun n hn => (hl n hn).2.2.2.2.1]
    rfl
  have hw : writtenBytes k = [] := by
    rw [writtenBytes, List.filterMap_eq_nil_iff.mpr fun n hn => (hl n hn).2.2.2.2.2]
    rfl
  refine h.append (fun hm => (hl _ hm).1 rfl) hid hfar (hq ▸ h.short) ?_
    (fun _ => by rw [hr, hc, hq])
    (fun _ => by rw [ht, hw, hq, List.append_nil, List.nil_append]) (fun _ => ?_)
      (fun _ k hk => ?_)
    fun _ t m hm hcm => ?_
  · intro hne
    rw [unacked_append fun n hn => ⟨(hl n hn).2.1, (hl n hn).2.2.2.1⟩]
    exact h.waits (hq ▸ hne)
  · rw [ha k (List.suffix_refl _), hc]
  · rw [ha k hk]
    exact Nat.zero_le _
  · have hn := (hl _ hm).2.2.2.1
    simp [Obs.isAck, hcm] at hn

/-- A stream that is just opened. -/
theorem Acking.opened {l : List Obs} {far far' : Option (TId × UInt32)} (h : Acking x a far l)
    (hq : a'.queue = a.queue) {t : TId} {m : AMessage} (hm : m.command = A_OKAY) :
    Acking x a' far' ([.opened x, .delivered t x m] ++ l) := by
  have hne : A_OKAY ≠ A_WRTE := by decide
  have hsince : sinceOpened x ([.opened x, .delivered t x m] ++ l) = [] := by
    simp [sinceOpened]
  refine ⟨hq ▸ h.short, fun hn => ?_, fun hf => ?_, fun hf => ?_, fun _ => by rw [hsince]; rfl,
    fun _ k hk => ?_, fun _ t m hm' => ?_⟩
  · rw [unacked_append (by simp [Obs.isReceipt, Obs.isAck, hm, hne])]
    exact h.waits (hq ▸ hn)
  · have hl := h.ledger fun hn => hf (List.mem_append_right _ hn)
    simpa [Obs.isReceipt, Obs.isCompletion, hm, hne, hq] using hl
  · have hb := h.bytes fun hn => hf (List.mem_append_right _ hn)
    have ht : takenBytes [.opened x, .delivered t x m] = [] := rfl
    have hw : writtenBytes [.opened x, .delivered t x m] = [] := rfl
    rw [takenBytes_append, writtenBytes_append, ht, hw, List.append_nil, List.append_nil, hq,
      hb]
  · rw [hsince, List.suffix_nil] at hk
    rw [hk]
    exact Nat.le_refl _
  · rw [hsince] at hm'
    cases hm'

/-! ### The payload of a `WRTE` -/

section Payload

variable {l : List Obs} {far far' : Option (TId × UInt32)} {t : TId} {m : AMessage}
  {bs payload : List UInt8}

/-- A payload that is written in part, and waits. -/
theorem Acking.blocked {p' : APacket} (h : Acking x a far l) (hm : m.command = A_WRTE)
    (hq : a.queue = []) (hbs : payload = bs ++ p'.bytes) (hid : a'.id = a.id)
    (hq' : a'.queue = [p']) (hfar : .opened x ∈ l → far' = far) :
    Acking x a' far' ([.wrote x bs, .taken x payload, .delivered t x m] ++ l) := by
  refine h.append (by simp) hid hfar (by simp [hq']) (fun _ => ?_) (fun _ => ?_) (fun _ => ?_)
    (fun _ => ?_) (fun _ k hk => ?_) ?_
  · simp [unacked, Obs.isReceipt, Obs.isAck, hm]
  · simp [Obs.isReceipt, Obs.isCompletion, hm, hq, hq']
  · simpa [Obs.payload, Obs.bytes, hq, hq'] using hbs
  · simp [Obs.isAck, Obs.isCompletion]
  · refine Nat.le_trans (Nat.le_of_eq (List.countP_eq_zero.mpr fun n hn => ?_)) (Nat.zero_le _)
    have hn' := hk.subset hn
    simp only [List.mem_cons, List.not_mem_nil, or_false] at hn'
    rcases hn' with rfl | rfl | rfl <;> simp [Obs.isAck]
  · simp

/-- A payload that cannot be written. -/
theorem Acking.failed (h : Acking x a far l) (hm : m.command = A_WRTE)
    (hfar : .opened x ∈ l → far' = far) :
    Acking x a far'
      ([.writeFailed x, .wrote x bs, .taken x payload, .delivered t x m] ++ l) := by
  refine h.append (by simp) rfl hfar h.short (fun _ => ?_) (fun hf => ?_) (fun hf => ?_)
    (fun _ => ?_) (fun _ k hk => ?_) ?_
  · simp [unacked, Obs.isReceipt, Obs.isAck, hm]
  · simp at hf
  · simp at hf
  · simp [Obs.isAck, Obs.isCompletion]
  · refine Nat.le_trans (Nat.le_of_eq (List.countP_eq_zero.mpr fun n hn => ?_)) (Nat.zero_le _)
    have hn' := hk.subset hn
    simp only [List.mem_cons, List.not_mem_nil, or_false] at hn'
    rcases hn' with rfl | rfl | rfl | rfl <;> simp [Obs.isAck]
  · simp

/-- A payload that is written at once, and answered with the `OKAY` `m'`. -/
theorem Acking.answered {m' : AMessage} (h : Acking x a far l) (hm : m.command = A_WRTE)
    (hq : a.queue = []) (hm' : m'.command = A_OKAY) (hfar : .opened x ∈ l → far' = far)
    (hids : .opened x ∈ l → m'.arg0 = a.id ∧ far = some (t, m'.arg1)) :
    Acking x a far' ([.sent t (some x) m', .completed x, .wrote x payload, .taken x payload,
      .delivered t x m] ++ l) := by
  refine h.append (by simp) rfl hfar h.short (by simp [hq]) (fun _ => ?_) (fun _ => ?_)
    (fun _ => ?_) (fun _ k hk => ?_) fun ho t' m'' hm'' _ => ?_
  · simp [List.countP_cons, Obs.isReceipt, Obs.isCompletion, hm, hq]
  · simp [Obs.payload, Obs.bytes, hq]
  · simp [List.countP_cons, Obs.isAck, Obs.isCompletion, hm']
  · simp only [List.suffix_cons_iff, List.suffix_nil] at hk
    rcases hk with rfl | rfl | rfl | rfl | rfl | rfl <;>
      simp [List.countP_cons, Obs.isAck, Obs.isCompletion, hm']
  · simp only [List.mem_cons, Obs.sent.injEq, reduceCtorEq, List.not_mem_nil, or_false,
      true_and] at hm''
    obtain ⟨rfl, rfl⟩ := hm''
    exact hids ho

/-- A packet that waits is written in part, or cannot be written. -/
theorem Acking.continued {k : List Obs} (h : Acking x a far l) (hne : a.queue ≠ [])
    (hk : k = [] ∨ k = [.writeFailed x]) (hbs : unwritten a.queue = bs ++ unwritten a'.queue)
    (hid : a'.id = a.id) (hq' : a'.queue.length = 1) (hfar : .opened x ∈ l → far' = far) :
    Acking x a' far' (k ++ [.wrote x bs] ++ l) := by
  have hlen : a.queue.length = 1 := by
    obtain ⟨p, hp⟩ := List.length_eq_one_iff.mp
      (Nat.le_antisymm h.short (List.length_pos_iff.mpr hne))
    rw [hp]
    rfl
  have hidle (n : Obs) (hn : n ∈ k ++ [.wrote x bs]) :
      n.isReceipt = false ∧ n.isAck = false ∧ n.isCompletion = false := by
    rcases hk with rfl | rfl <;> simp at hn
    · simp [hn, Obs.isReceipt, Obs.isAck, Obs.isCompletion]
    · rcases hn with rfl | rfl <;> simp [Obs.isReceipt, Obs.isAck, Obs.isCompletion]
  have hzero (f : Obs → Bool) (hf : ∀ n ∈ k ++ [.wrote x bs], f n = false)
      (i : List Obs) (hi : i <:+ k ++ [.wrote x bs]) : i.countP f = 0 :=
    List.countP_eq_zero.mpr fun n hn => by simp [hf n (hi.subset hn)]
  have hcompl := hzero Obs.isCompletion fun n hn => (hidle n hn).2.2
  have hacks := hzero Obs.isAck fun n hn => (hidle n hn).2.1
  have hrecs := hzero Obs.isReceipt fun n hn => (hidle n hn).1
  refine h.append ?_ hid hfar (Nat.le_of_eq hq') (fun _ => ?_) (fun hf => ?_) (fun hf => ?_)
    (fun _ => ?_) (fun _ i hi => ?_) fun _ t m hm hcm => ?_
  · rcases hk with rfl | rfl <;> simp
  · rw [unacked_append fun n hn => ⟨(hidle n hn).1, (hidle n hn).2.1⟩]
    exact h.waits hne
  · rw [hcompl _ (List.suffix_refl _), hrecs _ (List.suffix_refl _), hlen, hq']
  · rcases hk with rfl | rfl
    · simpa [Obs.payload, Obs.bytes] using hbs
    · simp at hf
  · rw [hacks _ (List.suffix_refl _), hcompl _ (List.suffix_refl _)]
  · rw [hacks i hi]
    exact Nat.zero_le _
  · have hn := (hidle _ hm).2.1
    simp [Obs.isAck, hcm] at hn

/-- A packet that waits is written completely: it is answered with the `OKAY` `m`, or the
stream is not opened. -/
theorem Acking.completed {k : List Obs} (h : Acking x a far l) (hlen : a.queue.length = 1)
    (hk : k = [] ∧ .opened x ∉ l ∨ k = [.sent t (some x) m]) (hm : m.command = A_OKAY)
    (hbs : unwritten a.queue = bs) (hid : a'.id = a.id) (hq' : a'.queue = [])
    (hfar : .opened x ∈ l → far' = far)
    (hids : k = [.sent t (some x) m] → m.arg0 = a.id ∧ far = some (t, m.arg1)) :
    Acking x a' far' (k ++ [.completed x, .wrote x bs] ++ l) := by
  refine h.append ?_ hid hfar (by simp [hq']) (fun hn => absurd hq' hn)
    (fun _ => ?_) (fun _ => ?_) (fun ho => ?_) (fun ho i hi => ?_) fun ho t' m' hm' _ => ?_
  · rcases hk with ⟨rfl, -⟩ | rfl <;> simp
  · rcases hk with ⟨rfl, -⟩ | rfl <;>
      simp [List.countP_cons, Obs.isReceipt, Obs.isCompletion, hq', hlen]
  · rcases hk with ⟨rfl, -⟩ | rfl <;>
      simp [Obs.payload, Obs.bytes, hq', hbs]
  · rcases hk with ⟨-, hn⟩ | rfl
    · exact absurd ho hn
    · simp [List.countP_cons, Obs.isAck, Obs.isCompletion, hm]
  · rcases hk with ⟨-, hn⟩ | rfl
    · exact absurd ho hn
    · simp only [List.singleton_append, List.suffix_cons_iff, List.suffix_nil] at hi
      rcases hi with rfl | rfl | rfl | rfl <;>
        simp [List.countP_cons, Obs.isAck, Obs.isCompletion, hm]
  · rcases hk with ⟨-, hn⟩ | rfl
    · exact absurd ho hn
    · simp only [List.singleton_append, List.mem_cons, Obs.sent.injEq, reduceCtorEq,
        List.not_mem_nil, or_false, true_and] at hm'
      obtain ⟨rfl, rfl⟩ := hm'
      exact hids rfl

end Payload

/-! ### Operations -/

/-- The transport and the id of the other end of a socket with the record `a`. -/
def Core.otherEnd (c : Core) (a : ASocket) : Option (TId × UInt32) :=
  a.peer.bind fun r => (c.sockets r).bind fun b => b.transport.map (·, b.id)

/-- If `x` is a local socket that is not closing, its acknowledgements are right. -/
def Core.Acks (c : Core) (x : SockId) : Prop :=
  ∀ a, c.sockets x = some a → a.kind.isLocal = true → a.closing = false →
    Acking x a (c.otherEnd a) (c.about x)

/-- The outcome of draining a queue of one packet. -/
theorem drain_single (ws : List WriteRes) (p : APacket) :
    ((drain ws [p]).verdict = .drained → (drain ws [p]).queue = [] ∧
      (drain ws [p]).done = [p]) ∧
    ((drain ws [p]).verdict ≠ .drained →
      (drain ws [p]).queue.length = 1 ∧ (drain ws [p]).done = []) := by
  rw [drain]
  cases hv : (writeLoop ws p.bytes).verdict with
  | drained => simp [drain]
  | wouldBlock | failed => simp

/-- A queue with at most one packet that is not empty has one. -/
theorem Acking.single {far : Option (TId × UInt32)} {l : List Obs} (h : Acking x a far l)
    (hq : a.queue ≠ []) : ∃ p, a.queue = [p] :=
  List.length_eq_one_iff.mp (Nat.le_antisymm h.short (List.length_pos_iff.mpr hq))

/-- The other end of an opened stream is a remote socket, which an operation about another
socket leaves alone. -/
theorem Op.otherEnd_eq (hgr : Graph w.core) (hg : o.Guard w) (hcl : w.core.ClientsUnopened)
    (hx : w.core.sockets x = some a) (hl : a.kind.isLocal = true) (ho : w.core.Opened x)
    (hne : o.sock ≠ some x) : (o.effect w.core).otherEnd a = w.core.otherEnd a := by
  rw [Core.otherEnd, Core.otherEnd]
  cases hp : a.peer with
  | none => rfl
  | some r =>
      obtain ⟨b, hb, hback, hf⟩ := hgr.peer hx hp
      have hk : b.kind = .remoteSocket := by
        have hns : b.kind ≠ .smartSocket := fun hk => hcl r b x hb hk hback ho
        revert hf hl hns
        cases a.kind <;> cases b.kind <;>
          simp [SockKind.Faces, SockKind.isLocal, SockKind.isEnd]
      have hu : w.core.Untouched (o.effect w.core) r := by
        refine o.untouched hgr hg (fun _ => hgr.fresh hb) fun y hy =>
          ⟨?_, fun b' hb' hp' => ?_⟩
        · rintro rfl
          obtain ⟨b', hb', he | ⟨he, -⟩⟩ := o.sock_kind hgr hg hy
          · obtain rfl : b = b' := Option.some.inj (hb.symm.trans hb')
            simp [hk, SockKind.isEnd] at he
          · obtain rfl : b = b' := Option.some.inj (hb.symm.trans hb')
            simp [hk] at he
        · obtain rfl : b = b' := Option.some.inj (hb.symm.trans hb')
          obtain rfl : x = y := Option.some.inj (hback.symm.trans hp')
          exact hne hy
      simp only [Option.bind_some, hu.sock]

/-- An operation on an opened stream that does not close it keeps both ends. -/
theorem Op.keepsEnds (hg : o.Guard w) (hgr : Graph w.core) (hcl : w.core.ClientsUnopened)
    (hsock : o.sock = some x) (hx : w.core.sockets x = some a) (hk : a.kind = .localSocket)
    (hc : a.closing = false) (ho : w.core.Opened x)
    (hx' : (o.effect w.core).sockets x = some a') (hc' : a'.closing = false) :
    (o.effect w.core).otherEnd a' = w.core.otherEnd a := by
  have hrec {b : ASocket} (hb : w.core.sockets x = some b) : b = a :=
    Option.some.inj (hb.symm.trans hx)
  -- the operations that keep the record but for the queue, and all other sockets
  have hkeep (hp : a'.peer = a.peer)
      (hy : ∀ y, y ≠ x → (o.effect w.core).sockets y = w.core.sockets y) :
      (o.effect w.core).otherEnd a' = w.core.otherEnd a := by
    rw [Core.otherEnd, Core.otherEnd, hp]
    cases hr : a.peer with
    | none => rfl
    | some r => simp only [Option.bind_some, hy r (hgr.peer_ne hx hr)]
  have hsame (h : (o.effect w.core).sockets = w.core.sockets) :
      (o.effect w.core).otherEnd a' = w.core.otherEnd a := by
    rw [h] at hx'
    exact hkeep (by rw [hrec hx']) fun y _ => by rw [h]
  have hput {q : List APacket} (h : (o.effect w.core).sockets =
      (w.core.putSock x (some { a with queue := q })).sockets) :
      (o.effect w.core).otherEnd a' = w.core.otherEnd a := by
    rw [h] at hx'
    obtain rfl : { a with queue := q } = a' := by simpa [Core.putSock] using hx'
    exact hkeep rfl fun y hy => by rw [h]; simp [Core.putSock, hy]
  cases o with (dsimp only [Op.sock] at hsock; cases hsock)
  | deliver | readOff | ready | wrteFail | readWrte | sendList => exact hsame rfl
  | flags _ b =>
      have hj := hg.2
      rw [hrec hg.1, hk] at hj
      cases hj
  | collectFirst _ b | collectMore _ b =>
      have hks := hg.2.1
      rw [hrec hg.1, hk] at hks
      cases hks
  | choose _ b =>
      have hks := hg.2
      rw [hrec hg.1, hk] at hks
      cases hks
  | rig _ b ss d => exact absurd ho (hcl ss d x hg.2.2.1 hg.2.2.2.1 hg.2.2.2.2.1)
  | attach _ b =>
      have hn := (hgr.shape hg.1).peer.mp hg.2.2.1
      rw [hrec hg.1, hk, hc] at hn
      simp at hn
  | wrteQueue t _ b m p | wrteBlock t _ b m p bs =>
      obtain rfl := hrec hg.1
      exact hput rfl
  | wrteDone t _ b T m p => exact hsame Op.wrteDone_sockets
  | drain _ b d =>
      obtain rfl := hrec hg.1
      exact hput (q := d.queue) Op.drain_sockets
  | drainDestroy _ b d notes =>
      simp [Op.effect, Core.close, Close.fate, hg.2.2.2.2.1] at hx'
  | drainReady _ b d far =>
      obtain rfl := hrec hg.1
      exact hput (q := d.queue) Op.drainReady_sockets
  | close d =>
      have hfate : d.fate = some a' := by simpa [Op.effect, Core.close] using hx'
      rw [Close.fate] at hfate
      split at hfate
      · cases hfate
      obtain rfl := Option.some.inj hfate
      cases hc'

/-- A queue that could not be written to its end keeps its packet. -/
theorem Acking.drain {far far' : Option (TId × UInt32)} {l : List Obs} {ws : List WriteRes}
    (h : Acking x a far l) (hv : (Adbd.drain ws a.queue).verdict ≠ .drained)
    (hfar : .opened x ∈ l → far' = far) :
    Acking x { a with queue := (Adbd.drain ws a.queue).queue } far'
      (((Op.drain x a (Adbd.drain ws a.queue)).notes c).filter (fun n => n.subject = some x) ++
        l) := by
  have hne : a.queue ≠ [] := by
    intro hn
    simp [hn, Adbd.drain] at hv
  obtain ⟨p, hq⟩ := h.single hne
  have hsingle := (drain_single ws p).2 (hq ▸ hv)
  rw [← hq] at hsingle
  have hnotes : ∃ k, ((Op.drain x a (Adbd.drain ws a.queue)).notes c).filter
      (fun n => n.subject = some x) = k ++ [.wrote x (Adbd.drain ws a.queue).bytes] ∧
      (k = [] ∨ k = [.writeFailed x]) := by
    simp only [Op.notes, hsingle.2]
    split
    · exact ⟨[.writeFailed x], by simp [Obs.subject], .inr rfl⟩
    · exact ⟨[], by simp [Obs.subject], .inl rfl⟩
  obtain ⟨k, hnotes, hk⟩ := hnotes
  rw [hnotes]
  exact h.continued hne hk (drain_append ws a.queue).symm rfl hsingle.1 hfar

/-- A queue that was written to its end is answered, unless the other end is a smart socket. -/
theorem Acking.drainReady {f : ASocket} {l : List Obs} {ws : List WriteRes}
    {o : Option (TId × ATransport × UInt32)} (h : Acking x a (c.otherEnd a) l)
    (hne : a.queue ≠ [])
    (hv : (Adbd.drain ws a.queue).verdict = .drained) (hp : a.peer = some q)
    (hf : c.sockets q = some f)
    (hcase : .opened x ∉ l ∧ o = none ∨
      ∃ t T, f.transport = some t ∧ o = some (t, T, f.id))
    (hfar : .opened x ∈ l → far' = c.otherEnd a) :
    Acking x { a with queue := (Adbd.drain ws a.queue).queue } far'
      (((Op.drainReady x a (Adbd.drain ws a.queue) o).notes c).filter
        (fun n => n.subject = some x) ++ l) := by
  obtain ⟨p, hq⟩ := h.single hne
  have hsingle := (drain_single ws p).1 (hq ▸ hv)
  rw [← hq] at hsingle
  have hlen : a.queue.length = 1 := by rw [hq]; rfl
  have hbytes : unwritten a.queue = (Adbd.drain ws a.queue).bytes :=
    (drain_bytes_of_drained hv).symm
  have hokay : (ctlPacket c.nextPkt A_OKAY a.id f.id).msg.command = A_OKAY := rfl
  rcases hcase with ⟨hnot, rfl⟩ | ⟨t, T, ht, rfl⟩
  · have hnotes : ((Op.drainReady x a (Adbd.drain ws a.queue) none).notes c).filter
        (fun n => n.subject = some x) =
          [] ++ [.completed x, .wrote x (Adbd.drain ws a.queue).bytes] := by
      simp [Op.notes, Obs.subject, hsingle.2, hlen]
    rw [hnotes]
    exact h.completed (t := 0) hlen (.inl ⟨rfl, hnot⟩) hokay hbytes rfl hsingle.1 hfar
      fun hnil => absurd hnil.symm (List.cons_ne_nil _ _)
  · have hnotes :
      ((Op.drainReady x a (Adbd.drain ws a.queue) (some (t, T, f.id))).notes c).filter
        (fun n => n.subject = some x) =
          [.sent t (some x) (ctlPacket c.nextPkt A_OKAY a.id f.id).msg] ++
            [.completed x, .wrote x (Adbd.drain ws a.queue).bytes] := by
      simp [Op.notes, Obs.subject, hsingle.2, hlen]
    rw [hnotes]
    refine h.completed hlen (.inr rfl) hokay hbytes rfl hsingle.1 hfar fun _ => ⟨rfl, ?_⟩
    simp [Core.otherEnd, hp, hf, ht, ctlPacket, APacket.finish]

/-- **What an operation on a local socket makes of its acknowledgements**, if the host sends
no `WRTE` while another is unanswered, and only with the ids of the stream. -/
theorem Task.May.acking {k : Task} (h : k.May e w o) (hg : o.Guard w) (hgr : Graph w.core)
    (hcl : w.core.ClientsUnopened) (hsock : o.sock = some x) (hx : w.core.sockets x = some a)
    (hl : a.kind.isLocal = true) (hc : a.closing = false)
    (hkind : w.core.Opened x → a.kind = .localSocket)
    (hack : Acking x a (w.core.otherEnd a) (w.core.about x))
    (hhost : ∀ t m, k.Gets e t x m → m.command = A_WRTE →
      unacked (e.about x) = 0 ∧ (e.Opened x → w.core.otherEnd a = some (t, m.arg0)))
    (hx' : (o.effect w.core).sockets x = some a') (hc' : a'.closing = false) :
    Acking x a' ((o.effect w.core).otherEnd a') ((o.effect w.core).about x) := by
  have hrec {b : ASocket} (hb : w.core.sockets x = some b) : b = a :=
    Option.some.inj (hb.symm.trans hx)
  have hjdwp {b : ASocket} (hb : w.core.sockets x = some b) (hj : b.kind.isJdwp = true) :
      False := by
    rw [hrec hb] at hj
    revert hl hj
    cases a.kind <;> simp [SockKind.isLocal, SockKind.isJdwp]
  have hfar (ho : .opened x ∈ w.core.about x) :
      (o.effect w.core).otherEnd a' = w.core.otherEnd a :=
    o.keepsEnds hg hgr hcl hsock hx (hkind ho) hc ho hx' hc'
  have hput {b : ASocket} (hb : (w.core.putSock x (some b)).sockets x = some a') : b = a' := by
    simpa [Core.putSock] using hb
  have hokay : A_OKAY ≠ A_WRTE := by decide
  rw [o.about_effect]
  cases o with (dsimp only [Op.sock] at hsock; cases hsock)
  | deliver t _ m =>
      obtain ⟨b, hb, -, hj | ⟨-, hm⟩⟩ := hg
      · exact (hjdwp hb hj).elim
      · obtain rfl : a = a' := Option.some.inj (hx.symm.trans hx')
        refine hack.idle ?_ rfl rfl hfar
        simp [Op.notes, Obs.subject, Obs.Idle, Obs.isReceipt, Obs.isCompletion, Obs.isAck,
          Obs.payload, Obs.bytes, hm]
  | sendList =>
      obtain ⟨-, -, ⟨b, hb, hj⟩, -⟩ := hg
      exact (hjdwp hb hj).elim
  | flags => exact (hjdwp hg.1 hg.2).elim
  | collectFirst _ b p | collectMore _ b p =>
      have hk := hg.2.1
      rw [hrec hg.1] at hk
      simp [hk, SockKind.isLocal] at hl
  | choose _ b t =>
      have hk := hg.2
      rw [hrec hg.1] at hk
      simp [hk, SockKind.isLocal] at hl
  | rig _ b ss d t T p =>
      obtain rfl := hrec hg.1
      simp only [Op.effect, Core.rig, if_true] at hx'
      obtain rfl := Option.some.inj hx'
      refine hack.idle ?_ rfl rfl hfar
      simp [Op.notes, Obs.subject]
  | readOff =>
      obtain rfl : a = a' := Option.some.inj (hx.symm.trans hx')
      exact hack.idle (by simp [Op.notes]) rfl rfl hfar
  | attach _ b id t T m =>
      obtain rfl := hrec hg.1
      simp only [Op.effect, Core.attach, if_true] at hx'
      obtain rfl := Option.some.inj hx'
      have hnotes : (Op.notes w.core (.attach x b id t T m)).filter
        (fun n => n.subject = some x) =
          [.opened x, .delivered t x m] := by
        simp only [Op.notes]
        split <;> simp [Obs.subject]
      rw [hnotes]
      refine hack.opened ?_ h.2.1
      rfl
  | ready _ t m =>
      obtain rfl : a = a' := Option.some.inj (hx.symm.trans hx')
      refine hack.idle ?_ rfl rfl hfar
      simp [Op.notes, Obs.subject, Obs.Idle, Obs.isReceipt, Obs.isCompletion, Obs.isAck,
        Obs.payload, Obs.bytes, h.2.1, hokay]
  | wrteQueue t _ b m p =>
      -- the host has an unanswered packet here, and waits
      obtain rfl := hrec hg.1
      obtain ⟨htk, rfl, hlog⟩ := h
      have habout : w.core.about x = e.about x := by rw [Core.about, Core.about, hlog]
      have hzero := (hhost t p.msg htk.1 htk.2.1).1
      have hpos := hack.waits hg.2.2.2.1
      rw [habout] at hpos
      omega
  | wrteBlock t _ b m p bs =>
      obtain rfl := hrec hg.1
      obtain ⟨htk, rfl, -, -⟩ := h
      obtain rfl := hput hx'
      have hbs : p.bytes = bs ++ (p.advance bs.length).bytes := by
        have htake : p.bytes.take bs.length = bs := hg.2.2.2.2.2
        calc p.bytes = p.bytes.take bs.length ++ p.bytes.drop bs.length :=
              (List.take_append_drop _ _).symm
          _ = bs ++ (p.advance bs.length).bytes := by rw [htake, APacket.bytes_advance]
      have hnotes : (Op.notes w.core (.wrteBlock t x b p.msg p bs)).filter
          (fun n => n.subject = some x) =
            [.wrote x bs, .taken x p.bytes, .delivered t x p.msg] := by
        simp [Op.notes, Obs.subject]
      rw [hnotes]
      have hq : b.queue = [] := hg.2.2.2.1
      exact hack.blocked htk.2.1 hq hbs rfl (by simp [hq]) hfar
  | wrteFail t _ m p bs =>
      obtain ⟨b, htk, rfl, -⟩ := h
      obtain rfl : a = a' := Option.some.inj (hx.symm.trans hx')
      have hnotes : (Op.notes w.core (.wrteFail t x p.msg p bs)).filter
          (fun n => n.subject = some x) =
            [.writeFailed x, .wrote x bs, .taken x p.bytes, .delivered t x p.msg] := by
        simp [Op.notes, Obs.subject]
      rw [hnotes]
      exact hack.failed htk.2.1 hfar
  | wrteDone t _ b T m p =>
      obtain ⟨htk, rfl, hlog⟩ := h
      obtain rfl := hrec hg.1
      rw [Op.wrteDone_sockets] at hx'
      obtain rfl : b = a' := Option.some.inj (hx.symm.trans hx')
      have hnotes : (Op.notes w.core (.wrteDone t x b T p.msg p)).filter
          (fun n => n.subject = some x) =
            [.sent t (some x) (ctlPacket w.core.nextPkt A_OKAY b.id p.msg.arg0).msg,
              .completed x, .wrote x p.bytes, .taken x p.bytes, .delivered t x p.msg] := by
        simp [Op.notes, Obs.subject]
      rw [hnotes]
      refine hack.answered htk.2.1 hg.2.2.2.1 rfl hfar fun ho => ⟨rfl, ?_⟩
      exact (hhost t p.msg htk.1 htk.2.1).2 ((Core.counts_of_log hlog).1.mp ho)
  | drain _ b d =>
      obtain rfl := hrec hg.1
      obtain ⟨-, -, ⟨ws, rfl⟩, hv, -⟩ := hg
      rw [Op.drain_sockets] at hx'
      obtain rfl := hput hx'
      exact hack.drain hv hfar
  | drainDestroy _ b d notes =>
      simp [Op.effect, Core.close, Close.fate, hg.2.2.2.2.1] at hx'
  | drainReady _ b d far =>
      obtain rfl := hrec hg.1
      obtain ⟨-, -, ⟨ws, rfl⟩, hv, -, -, q, f, hp, hf, hcase⟩ := hg
      rw [Op.drainReady_sockets] at hx'
      obtain rfl := hput hx'
      -- either the stream is not opened, or the other end is a remote socket, which answers
      refine hack.drainReady h.2 hv hp hf ?_ hfar
      rcases hcase with ⟨hk, rfl⟩ | ⟨hk, t, T, ht, hT, rfl⟩
      · obtain ⟨f', hf', hback, -⟩ := hgr.peer hx hp
        obtain rfl : f = f' := Option.some.inj (hf.symm.trans hf')
        exact .inl ⟨hcl q f x hf hk hback, rfl⟩
      · exact .inr ⟨t, T, ht, rfl⟩
  | readWrte _ b t T p =>
      have hcm := hg.2.2.2.2.1
      obtain rfl : a = a' := Option.some.inj (hx.symm.trans hx')
      refine hack.idle ?_ rfl rfl hfar
      simp [Op.notes, Obs.subject, Obs.Idle, Obs.isReceipt, Obs.isCompletion, Obs.isAck,
        Obs.payload, Obs.bytes, hcm, Ne.symm hokay]
  | close d =>
      have hfate : d.fate = some a' := by simpa [Op.effect, Core.close] using hx'
      rw [Close.fate] at hfate
      split at hfate
      · cases hfate
      obtain rfl := Option.some.inj hfate
      cases hc'

/-- The notes about a socket that was just made. -/
theorem Acking.born {far : Option (TId × UInt32)} {l : List Obs} (hq : a.queue = [])
    (hl : l = [] ∨ ∃ t m, l = [.opened x, .sent t (some x) m]) : Acking x a far l := by
  rcases hl with rfl | ⟨t, m, rfl⟩
  · constructor <;> simp [hq]
  · have hsince : sinceOpened x [.opened x, .sent t (some x) m] = [] := by simp [sinceOpened]
    constructor
    case order =>
      intro _ k hk
      rw [hsince, List.suffix_nil] at hk
      simp [hk]
    all_goals
      simp [hq, hsince, Obs.isReceipt, Obs.isCompletion, Obs.payload, Obs.bytes]

/-- **Every operation keeps the acknowledgements right.** -/
theorem Core.Acks.op {k : Task} (hac : w.core.Acks x) (h : k.May e w o) (hg : o.Guard w)
    (hgr : Graph w.core) (hf : w.core.Fresh) (hcl : w.core.ClientsUnopened)
    (hwu : w.core.WaitersUnopened)
    (hhost : ∀ a, w.core.sockets x = some a → a.kind.isLocal = true → a.closing = false →
      ∀ t m, k.Gets e t x m → m.command = A_WRTE →
        unacked (e.about x) = 0 ∧ (e.Opened x → w.core.otherEnd a = some (t, m.arg0))) :
    (o.effect w.core).Acks x := by
  intro a' hx' hl' hc'
  cases hx : w.core.sockets x with
  | none =>
      obtain ⟨rfl, ⟨fd, rfl⟩ | ⟨d, rfl, hk⟩⟩ := o.born hgr hg hx hx' hl'
      · simp only [Op.effect, Core.accept, if_true] at hx'
        obtain rfl := Option.some.inj hx'
        exact .born rfl (.inl (hf _ (Nat.le_refl _)))
      · simp only [Op.effect, Core.openStream, if_true] at hx'
        obtain rfl := Option.some.inj hx'
        have hnil : w.core.about w.core.nextSock = [] := hf _ (Nat.le_refl _)
        refine .born rfl (.inr ⟨d.t,
          (ctlPacket w.core.nextPkt A_OKAY w.core.localSocketNextId d.remote).msg, ?_⟩)
        rw [Op.about_effect, hnil]
        simp [Op.notes, Obs.subject]
  | some a =>
      have hl : a.kind.isLocal = true := (o.isLocal_old hgr hg hx hx').symm.trans hl'
      have hc : a.closing = false := by
        cases hc : a.closing with
        | false => rfl
        | true => simp [o.closing_stays hgr hg hx hx' hc] at hc'
      have hkind (ho : w.core.Opened x) : a.kind = .localSocket := by
        have hn : a.kind ≠ .localNotify := fun hn => hwu x a hx hn ho
        revert hl hn
        cases a.kind <;> simp [SockKind.isLocal]
      by_cases hsock : o.sock = some x
      · exact h.acking hg hgr hcl hsock hx hl hc hkind (hac a hx hl hc)
          (hhost a hx hl hc) hx' hc'
      · have hu := o.untouched_end hgr hg hx (SockKind.isEnd_of_isLocal hl) hsock
        obtain rfl : a = a' := Option.some.inj (hx.symm.trans (hu.sock.symm.trans hx'))
        rw [hu.about]
        exact (hac a hx hl hc).idle (k := []) (by simp) rfl rfl fun ho =>
          o.otherEnd_eq hgr hg hcl hx hl ho hsock

/-- Both ends of a stream that is opened in `e` are still the same. -/
def Core.SameEnds (e c : Core) (x : SockId) : Prop :=
  e.Opened x → c.Opened x ∧ ∀ a₀ a, e.sockets x = some a₀ → c.sockets x = some a →
    a.kind.isLocal = true → a.closing = false → c.otherEnd a = e.otherEnd a₀

/-- Every operation keeps the ends of an opened stream. -/
theorem Core.SameEnds.op (h : e.SameEnds w.core x) (hg : o.Guard w) (hgr : Graph w.core)
    (hcl : w.core.ClientsUnopened) (hwu : w.core.WaitersUnopened)
    (hlive : ∀ a, e.sockets x = some a → x < w.core.nextSock) :
    e.SameEnds (o.effect w.core) x := by
  intro ho
  obtain ⟨how, hends⟩ := h ho
  obtain ⟨l, hgrow⟩ := o.about_grows w.core x
  refine ⟨by rw [Core.Opened, hgrow]; exact List.mem_append_right _ how, ?_⟩
  intro a₀ a' hx₀ hx' hl' hc'
  cases hx : w.core.sockets x with
  | none =>
      have hdead := o.untouched_dead hgr hg hx fun _ => hlive a₀ hx₀
      rw [hdead.sock, hx] at hx'
      cases hx'
  | some a =>
      have hl : a.kind.isLocal = true := (o.isLocal_old hgr hg hx hx').symm.trans hl'
      have hc : a.closing = false := by
        cases hc : a.closing with
        | false => rfl
        | true => simp [o.closing_stays hgr hg hx hx' hc] at hc'
      rw [← hends a₀ a hx₀ hx hl hc]
      by_cases hsock : o.sock = some x
      · have hn : a.kind ≠ .localNotify := fun hn => hwu x a hx hn how
        have hk : a.kind = .localSocket := by
          revert hl hn
          cases a.kind <;> simp [SockKind.isLocal]
        exact o.keepsEnds hg hgr hcl hsock hx hk hc how hx' hc'
      · have hu := o.untouched_end hgr hg hx (SockKind.isEnd_of_isLocal hl) hsock
        obtain rfl : a = a' := Option.some.inj (hx.symm.trans (hu.sock.symm.trans hx'))
        exact o.otherEnd_eq hgr hg hcl hx hl how hsock

/-! ### Runs -/

/-- **The host awaits the acknowledgements of `x`**: a `WRTE` for it comes only when none is
unanswered, and on an opened stream with the ids of the stream. -/
def HostAwaits (x : SockId) (s : System) (b : Action) : Prop :=
  ∀ t p a, s.task b = .packet t p → p.msg.command = A_WRTE → s.core.find p.msg.arg1 = some x →
    s.core.sockets x = some a → unacked (s.core.about x) = 0 ∧
      (s.core.Opened x → s.core.otherEnd a = some (t, p.msg.arg0))

/-- A step keeps the acknowledgements right. -/
theorem Core.Acks.step {b : Action} (hs : Reachable s) (h : s.core.Acks x)
    (hhost : HostAwaits x s b) (hstep : Adbd.step s b = .ok s') : s'.core.Acks x := by
  have hstart : (s.start b).sockets = s.core.sockets ∧ (s.start b).find = s.core.find ∧
      (s.start b).log = s.core.log := by
    cases b <;> exact ⟨rfl, rfl, rfl⟩
  obtain ⟨hsock, hfind, hlog⟩ := hstart
  have hopen := (Core.counts_of_log (x := x) hlog).1
  have habout : (s.start b).about x = s.core.about x := by rw [Core.about, Core.about, hlog]
  have hother (a : ASocket) : (s.start b).otherEnd a = s.core.otherEnd a := by
    rw [Core.otherEnd, Core.otherEnd, hsock]
  have hops := step_ops hs.wf hs.lives.unregistered hstep
  refine (hops.invariant (I := fun v => WF v ∧ v.core.Fresh ∧ v.core.ClientsUnopened ∧
    v.core.WaitersUnopened ∧ s.core.nextSock ≤ v.core.nextSock ∧
    (s.start b).SameEnds v.core x ∧ v.core.Acks x) ⟨hs.wf, hs.fresh, hs.clientsUnopened,
      hs.waitersUnopened, Nat.le_refl _, ?_, h⟩ ?_).2.2.2.2.2.2
  · intro ho
    refine ⟨hopen.mp ho, fun a₀ a hx₀ hx _ _ => ?_⟩
    obtain rfl : a = a₀ := Option.some.inj (hx.symm.trans (hsock ▸ hx₀))
    exact (hother a).symm
  · rintro v o ⟨hv, hf, hcl, hwu, hle, hends, hac⟩ hg hmay
    refine ⟨hv.op hg, hf.op hv.graph hg, hcl.op hf hv.graph hg, hwu.op hcl hv.graph hg,
      Nat.le_trans hle (o.nextSock_le v.core), hends.op hg hv.graph hcl hwu fun a ha => ?_,
      hac.op hmay hg hv.graph hf hcl hwu ?_⟩
    · exact Nat.lt_of_lt_of_le (hs.wf.graph.fresh (hsock ▸ ha)) hle
    · rintro a hx hl hc t m ⟨p, hk, rfl, hfd⟩ hm
      rw [hfind] at hfd
      obtain ⟨a₀, hx₀, -⟩ := (hs.wf.graph.mem_list x).mp (List.mem_of_find?_eq_some hfd)
      obtain ⟨hzero, hids⟩ := hhost t p a₀ hk hm hfd hx₀
      refine ⟨habout ▸ hzero, fun ho => ?_⟩
      rw [(hends ho).2 a₀ a (hsock ▸ hx₀) hx hl hc, hother, hids (hopen.mp ho)]

/-- **Receive acknowledgement**: in every run in which the host awaits the acknowledgements
of `x`, an opened stream that is not closed has answered every payload that was written
completely with one `OKAY`, not before its last byte was written, and with its own ids. -/
theorem receive_acknowledgement (h : Trans.Runs step (HostAwaits x) System.init s)
    (hx : s.core.sockets x = some a) (hl : a.kind.isLocal = true) (hc : a.closing = false) :
    Acking x a (s.core.otherEnd a) (s.core.about x) := by
  suffices hinv : s.core.Acks x from hinv a hx hl hc
  clear hx hl hc
  induction h with
  | refl => exact fun a ha => by cases ha
  | tail hrun hok hs ih => exact ih.step (Reachable.of_runs hrun) hok hs

/-- A shell gets a byte that has to wait, and when that is written another one. -/
theorem receive_acknowledgement_shell : ∃ s a, Trans.Runs step (HostAwaits 0) System.init s ∧
    s.core.sockets 0 = some a ∧ a.kind.isLocal = true ∧ a.closing = false ∧ s.core.Opened 0 ∧
    (sinceOpened 0 (s.core.about 0)).countP Obs.isAck = 2 ∧
    Acking 0 a (s.core.otherEnd a) (s.core.about 0) := by
  let test : System → Action → Bool := fun s b =>
    match s.task b with
    | .packet t p => p.msg.command ≠ A_WRTE ∨ (unacked (s.core.about 0) = 0 ∧
        (s.core.sockets 0).all fun a => s.core.otherEnd a = some (t, p.msg.arg0))
    | _ => true
  have htest (s : System) (b : Action) (h : test s b = true) : HostAwaits 0 s b := by
    intro t p a hk hm _ hx
    have h' : unacked (s.core.about 0) = 0 ∧ s.core.otherEnd a = some (t, p.msg.arg0) := by
      simpa [test, hk, hm, hx] using h
    exact ⟨h'.1, fun _ => h'.2⟩
  obtain ⟨s, hs, hP⟩ := exists_run
    (connect 0 .usb ++ openShell 0 5 7 ++ receive 0 A_WRTE 5 1 [65] { writes := [.eagain] } ++
      event (.sock 0) Events.onlyWrite { writes := [.wrote 1] } ++
      receive 0 A_WRTE 5 1 [66] { writes := [.wrote 1] }) htest
    (P := fun s => (s.core.sockets 0).any (fun a => a.kind.isLocal && !a.closing) ∧
      .opened 0 ∈ s.core.about 0 ∧ (sinceOpened 0 (s.core.about 0)).countP Obs.isAck = 2)
    (by decide +kernel)
  obtain ⟨ha, ho, hn⟩ := of_decide_eq_true hP
  obtain ⟨a, hx, hk⟩ := (Option.any_eq_true _ _).mp ha
  obtain ⟨hl, hc⟩ : a.kind.isLocal = true ∧ a.closing = false := by simpa using hk
  exact ⟨s, a, hs, hx, hl, hc, ho, hn, receive_acknowledgement hs hx hl hc⟩

/-- A `WRTE` for `x` comes only when none is unanswered. -/
def HostPaced (x : SockId) (s : System) (b : Action) : Prop :=
  ∀ t p, s.task b = .packet t p → p.msg.command = A_WRTE → s.core.find p.msg.arg1 = some x →
    unacked (s.core.about x) = 0

/-- **The pace alone is not enough.** A second host sends a byte to the shell of the first one,
where it is written at once: the `OKAY` for it goes to the second host, with the id that host
named, and not to the other end of the stream. -/
theorem foreign_wrte_answered : ∃ s a m, Trans.Runs step (HostPaced 0) System.init s ∧
    s.core.sockets 0 = some a ∧ a.kind.isLocal = true ∧ a.closing = false ∧ s.core.Opened 0 ∧
    s.core.otherEnd a = some (0, 5) ∧ .sent 1 (some 0) m ∈ s.core.about 0 ∧
    m.command = A_OKAY ∧ m.arg0 = 1 ∧ m.arg1 = 77 ∧
    ¬Acking 0 a (s.core.otherEnd a) (s.core.about 0) := by
  let test : System → Action → Bool := fun s b =>
    match s.task b with
    | .packet _ p => p.msg.command ≠ A_WRTE ∨ unacked (s.core.about 0) = 0
    | _ => true
  have htest (s : System) (b : Action) (h : test s b = true) : HostPaced 0 s b := by
    intro t p hk hm _
    simpa [test, hk, hm] using h
  let okay : AMessage := (ctlPacket 0 A_OKAY 1 77).msg
  obtain ⟨s, hs, hP⟩ := exists_run
    (connect 0 .usb ++ openShell 0 5 7 ++ connect 1 .tcp ++
      receive 1 A_WRTE 77 1 [65] { writes := [.wrote 1] }) htest
    (P := fun s => (s.core.sockets 0).any (fun a => a.kind.isLocal && !a.closing &&
        s.core.otherEnd a = some (0, 5)) ∧
      .opened 0 ∈ s.core.about 0 ∧ .sent 1 (some 0) okay ∈ sinceOpened 0 (s.core.about 0))
    (by decide +kernel)
  obtain ⟨ha, ho, hsent⟩ := of_decide_eq_true hP
  obtain ⟨a, hx, hk⟩ := (Option.any_eq_true _ _).mp ha
  obtain ⟨⟨hl, hc⟩, hend⟩ : (a.kind.isLocal = true ∧ a.closing = false) ∧
      s.core.otherEnd a = some (0, 5) := by simpa using hk
  have hmem : .sent 1 (some 0) okay ∈ s.core.about 0 :=
    (List.takeWhile_prefix _).subset hsent
  refine ⟨s, a, okay, hs, hx, hl, hc, ho, hend, hmem, rfl, rfl, rfl, fun hack => ?_⟩
  obtain ⟨-, hfar⟩ := hack.ids ho 1 okay hsent rfl
  rw [hend] at hfar
  simp [okay, ctlPacket] at hfar

end Adbd
