import Adbd.Dispatch
import Adbd.TableInvariant

/-!
# The Tables as a Loop

The daemon is built on a map from owners to records and a list of the pending ones. That is
what the tables are, for whoever does not look at descriptors: here every function on them is
the function of `Fdevent` on the loop they stand for, so that what holds of the loop holds of
them.

A mask has five bits besides the three for events, of which `FDE_DONT_CLOSE` is set by hand in
`jdwp_service.c`. The loop does not have them, and `fdevent_set` compares them with the others,
so they have to stay as they are.

## Main definitions

* `Models`: the records and the pending list of some tables are those of a loop.
* `Loop.Stepped`, `Loop.Run`: what the actions are on a loop.
* `Ordinary`: an action leaves the other bits of the masks alone.

## Main results

* `Models.step`, `Models.run`: the tables do what the loop does.
* `pending_of_events`: a record has events only while it is linked.
-/

namespace Adbd

open ListHead Runs

/-! ### Masks -/

namespace EventMask

/-- The bits of a mask that are not for events. -/
def others (m : EventMask) : EventMask := m &&& 0xf8

theorem toEvents_ofEvents (ev : Events) : (ofEvents ev).toEvents = ev := by
  rcases ev with ⟨_ | _, _ | _, _ | _⟩ <;> rfl

theorem ofEvents_union (a b : Events) : ofEvents (a.union b) = ofEvents a ||| ofEvents b := by
  rcases a with ⟨_ | _, _ | _, _ | _⟩ <;> rcases b with ⟨_ | _, _ | _, _ | _⟩ <;> rfl

theorem toEvents_or (m n : EventMask) : (m ||| n).toEvents = m.toEvents.union n.toEvents := by
  simp [toEvents, Events.union]

theorem toEvents_and_not (m n : EventMask) :
    (m &&& ~~~n).toEvents = m.toEvents.diff n.toEvents := by
  simp [toEvents, Events.diff]

theorem ofEvents_eq_zero {a : Events} : ofEvents a = 0 ↔ a = {} := by
  constructor
  · intro h
    rw [← toEvents_ofEvents a, h]
    rfl
  · rintro rfl
    rfl

theorem others_ofEvents (a : Events) : (ofEvents a).others = 0 := by
  rcases a with ⟨_ | _, _ | _, _ | _⟩ <;> rfl

/-- A mask is its events and its other bits. -/
theorem ext_toEvents {m n : EventMask} (hev : m.toEvents = n.toEvents)
    (hothers : m.others = n.others) : m = n := by
  obtain ⟨hread, hwrite, herror⟩ := Events.mk.inj hev
  have hhigh : ∀ i < 8, 3 ≤ i → (0xf8 : EventMask).getLsbD i = true := by decide
  refine BitVec.eq_of_getLsbD_eq fun i hi => ?_
  match i with
  | 0 => exact hread
  | 1 => exact hwrite
  | 2 => exact herror
  | i + 3 =>
      have hbit : m.others.getLsbD (i + 3) = n.others.getLsbD (i + 3) := by rw [hothers]
      rwa [others, others, BitVec.getLsbD_and, BitVec.getLsbD_and, hhigh _ hi (by omega),
        Bool.and_true, Bool.and_true] at hbit

/-- From pending events only bits for events are taken. -/
theorem ofEvents_and_not (a : Events) (m : EventMask) :
    ofEvents a &&& ~~~m = ofEvents (a.diff m.toEvents) := by
  refine ext_toEvents ?_ ?_
  · rw [toEvents_and_not, toEvents_ofEvents, toEvents_ofEvents]
  · have hzero : ofEvents a &&& 0xf8 = 0 := others_ofEvents a
    rw [others_ofEvents, others, BitVec.and_assoc, BitVec.and_comm (~~~m), ← BitVec.and_assoc,
      hzero]
    exact BitVec.zero_and

end EventMask

/-! ### The actions on a loop -/

namespace Loop

variable {ι : Type} [DecidableEq ι] {l l' : Loop ι} {a : TableAct ι} {as : List (TableAct ι)}

/-- **What the actions are on a loop**. A round of `select` has for every record events it is
watched for, or a faked read; a shell that has ended is known by its descriptor, if at all. -/
inductive Stepped (l : Loop ι) : TableAct ι → Loop ι → Prop
  | install {k : ι} {fd : Int} {room : Bool} (hk : (l.fdes k).pending = false) :
      l.Stepped (.install k fd room) (l.fdeventInstall k fd.toNat)
  | remove {k : ι} : l.Stepped (.remove k) (l.fdeventRemove k)
  | set {k : ι} {events : EventMask} :
      l.Stepped (.set k events) (l.fdeventSet k events.toEvents)
  | add {k : ι} {events : EventMask} :
      l.Stepped (.add k events) (l.fdeventAdd k events.toEvents)
  | del {k : ι} {events : EventMask} :
      l.Stepped (.del k events) (l.fdeventDel k events.toEvents)
  | process {r : SelectOutcome} {bad : Nat → Bool} {ready : List (ι × Events)}
      (hready : ∀ x ∈ ready, (l.fdes x.1).active = true ∧
        (x.2.Subset (l.fdes x.1).interest ∨ x.2 = .onlyRead)) :
      l.Stepped (.process r bad) (l.fdeventProcess ready)
  | dispatch {k : ι} {m : Loop ι} (hk : l.fdeventPlistDequeue = some (k, m)) :
      l.Stepped .dispatch (m.fdeventTake k).2
  | idle (hnone : l.fdeventPlistDequeue = none) : l.Stepped .dispatch l
  | subprocExit {k : ι} {rcount : Nat} (hk : (l.fdes k).active = true) :
      l.Stepped (.subprocExit (l.fdes k).fd rcount) (l.subprocExit k rcount).1
  | unknown {fd rcount : Nat} : l.Stepped (.subprocExit fd rcount) l

/-- A run of the loop. -/
inductive Run : Loop ι → List (TableAct ι) → Loop ι → Prop
  | nil {l : Loop ι} : Run l [] l
  | cons {l m n : Loop ι} {a : TableAct ι} {as : List (TableAct ι)} (hstep : l.Stepped a m)
      (hrest : Run m as n) : Run l (a :: as) n

omit [DecidableEq ι] in
theorem wf_empty : (empty : Loop ι).WF :=
  ⟨.nil, fun _ => iff_of_false List.not_mem_nil Bool.false_ne_true, fun _ _ => rfl,
    fun _ hk => absurd hk Bool.false_ne_true⟩

/-- Every action keeps the loop well formed. -/
theorem Stepped.wf (hstep : l.Stepped a l') (h : l.WF) : l'.WF := by
  cases hstep with
  | install hk => exact h.install _ hk
  | remove => exact h.remove _
  | set => exact h.set _
  | add => exact h.add _
  | del => exact h.del _
  | process hready => exact h.process _ fun x hx => (hready x hx).1
  | dispatch hk =>
      rw [fdeventPlistDequeue] at hk
      split at hk
      · cases hk
      · next hp =>
        obtain ⟨rfl, rfl⟩ := Prod.mk.inj (Option.some.inj hk)
        exact h.take hp
  | idle | unknown => exact h
  | subprocExit hk =>
      rw [subprocExit_eq]
      refine h.put rfl (fun hp => ?_) fun _ => hk
      dsimp only at hp ⊢
      rw [hp, h.events _ hp]
      simp

theorem Run.wf (hrun : l.Run as l') (h : l.WF) : l'.WF := by
  induction hrun with
  | nil => exact h
  | cons hstep _ ih => exact ih (hstep.wf h)

end Loop

/-! ### What the tables stand for -/

/-- A record of the tables is one of the loop. The tables do not have `force_eof`. -/
structure Fde.Models (f : Fde) (g : Fdevent) : Prop where
  fd : f.fd = g.fd
  active : f.active = g.active
  pending : f.pending = g.pending
  mask : f.mask.toEvents = g.interest
  events : f.events = .ofEvents g.events

namespace Tables

variable {ι : Type} [DecidableEq ι] {t t' : Tables ι} {k : ι} {f : Fde} {g : Fdevent}
    {l : Loop ι}

/-- **The tables model a loop**, whose pending list is the one that runs through the
records. -/
structure Models (t : Tables ι) (l : Loop ι) : Prop where
  fdes : ∀ k, (t.fdes k).Models (l.fdes k)
  listed : t.Listed l.pending

/-- What is found by a scan: records of the table, with the events of their descriptors. -/
def Found (t : Tables ι) (fds : Nat → Events) (r : ι × Events) : Prop :=
  ∃ fd < t.fdTableMax, t.fdTable fd = some r.1 ∧ fds fd = r.2 ∧ r.2 ≠ {}

/-! ### Replacing a record -/

theorem put_self : t.put k (t.fdes k) = t := by
  rw [put, Function.update_eq_self]

/-- The records, when one of them is replaced. -/
theorem models_put {p : List ι} (h : ∀ k, (t.fdes k).Models (l.fdes k)) (hf : f.Models g)
    (j : ι) :
    ((t.put k f).fdes j).Models ((({ l with pending := p } : Loop ι).put k g).fdes j) := by
  by_cases hj : j = k
  · rw [hj, put_fdes_self, Loop.put_fdes_self]
    exact hf
  · rw [put_fdes_of_ne hj, Loop.put_fdes_of_ne _ _ hj]
    exact h j

namespace Models

theorem put (h : t.Models l) (hf : f.Models g) (hpending : f.pending = (t.fdes k).pending)
    (hactive : f.pending = true → f.active = true) : (t.put k f).Models (l.put k g) :=
  ⟨models_put h.fdes hf, h.listed.put hpending hactive⟩

omit [DecidableEq ι] in
theorem mem (h : t.Models l) : k ∈ l.pending ↔ (t.fdes k).pending = true := h.listed.mem k

/-- A pending record that is not pending any more. -/
theorem unlink (h : t.Models l) (hk : (t.fdes k).pending = true) (hf : f.Models g)
    (hpending : f.pending = false) :
    ((t.fdeventPlistRemove k).put k f).Models ((l.fdeventPlistRemove k).put k g) :=
  ⟨models_put (t := t.fdeventPlistRemove k) h.fdes hf, h.listed.remove (h.mem.mpr hk) hpending⟩

/-- Events for an installed record. -/
theorem notify (h : t.Models l) (hk : (t.fdes k).active = true) {ev : Events} (hev : ev ≠ {}) :
    (t.notify k (.ofEvents ev)).Models (l.fdeventReady k ev) := by
  have hrec := h.fdes k
  have hmodels (b : Bool) : Fde.Models
      { t.fdes k with events := (t.fdes k).events ||| .ofEvents ev, pending := b }
      { l.fdes k with events := (l.fdes k).events.union ev, pending := b } :=
    ⟨hrec.fd, hrec.active, rfl, hrec.mask, by
      rw [EventMask.ofEvents_union, ← hrec.events]⟩
  rw [Tables.notify, Loop.fdeventReady, if_neg hev]
  dsimp only
  rw [← hrec.pending]
  cases hpending : (t.fdes k).pending with
  | true =>
      rw [if_pos rfl, if_pos rfl]
      exact h.put (hmodels true) hpending.symm fun _ => hk
  | false =>
      rw [if_neg Bool.false_ne_true, if_neg Bool.false_ne_true]
      exact ⟨models_put h.fdes (hmodels true), h.listed.enqueue hpending rfl hk⟩

/-- The scan takes the records it finds one after the other. -/
theorem scan {fds : Nat → Events} {m i : Nat} {n : Int} (hrep : t.Rep) (h : t.Models l)
    (hscan : Tables.scan fds m i n t = .ok t') :
    ∃ ready, (∀ r ∈ ready, Found t fds r) ∧ t'.Models (l.fdeventProcess ready) := by
  have hnil (t : Tables ι) : ∀ r ∈ [], Found t fds r := fun _ hr => absurd hr List.not_mem_nil
  induction m generalizing i n t l with
  | zero =>
      obtain rfl := Except.ok.inj hscan
      exact ⟨[], hnil _, h⟩
  | succ m ih =>
      rw [Tables.scan] at hscan
      split at hscan
      · obtain rfl := Except.ok.inj hscan
        exact ⟨[], hnil _, h⟩
      split at hscan
      · exact ih hrep h hscan
      next hevents =>
      split at hscan
      · cases hscan
      next hlt =>
      rw [Nat.not_le] at hlt
      split at hscan
      · cases hscan
      next j hj =>
      have hactive := ((hrep.indexed.table i hlt j).mp hj).1
      obtain ⟨htable, hmax, -⟩ := notify_table (t := t) (k := j) (.ofEvents (fds i))
      obtain ⟨ready, hfound, hmodels⟩ :=
        ih (hrep.notify hactive _) (h.notify hactive hevents) hscan
      refine ⟨(j, fds i) :: ready, fun r hr => ?_, hmodels⟩
      rcases List.mem_cons.mp hr with rfl | hr
      · exact ⟨i, hlt, hj, rfl, hevents⟩
      · have := hfound r hr
        rwa [Found, htable, hmax] at this

omit [DecidableEq ι] in
/-- The sets and the table do not matter. -/
theorem congr {s : Tables ι} (h : t.Models l) (hfdes : s.fdes = t.fdes)
    (hlinks : s.links = t.links) :
    s.Models l := by
  refine ⟨fun j => ?_, ?_, fun j => ?_, fun j hj => ?_⟩
  · rw [hfdes]
    exact h.fdes j
  · rw [hlinks]
    exact h.listed.ring
  · rw [hfdes]
    exact h.listed.mem j
  · rw [hfdes]
    exact h.listed.active j hj

/-- `fdevent_update` has stored the mask already. -/
theorem storeMask_put (events : EventMask) :
    (t.put k { t.fdes k with mask := events }).storeMask k events = t.storeMask k events := by
  rw [Tables.storeMask, Tables.storeMask, put_fdes_self]
  dsimp only
  split
  · split
    · exact put_put (t := t.fdeventPlistRemove k) _ _
    · exact put_put _ _
  · exact put_put _ _

/-- Another mask. -/
theorem storeMask {events : EventMask} (h : t.Models l)
    (hother : (l.fdes k).interest ≠ events.toEvents) :
    (t.storeMask k events).Models (l.fdeventSet k events.toEvents) := by
  have hrec := h.fdes k
  have hleft : (t.fdes k).events &&& ~~~events =
      .ofEvents ((l.fdes k).events.diff events.toEvents) := by
    rw [hrec.events, EventMask.ofEvents_and_not]
  rw [Tables.storeMask, Loop.fdeventSet, if_neg hother]
  dsimp only
  rw [hleft, ← hrec.pending]
  split
  · next hpending =>
    split
    · next hempty =>
      rw [if_pos (EventMask.ofEvents_eq_zero.mp hempty)]
      exact h.unlink hpending ⟨hrec.fd, hrec.active, rfl, rfl,
        (EventMask.ofEvents_eq_zero.mpr rfl).symm⟩ rfl
    · next hsome =>
      rw [if_neg fun hempty => hsome (EventMask.ofEvents_eq_zero.mpr hempty)]
      exact h.put ⟨hrec.fd, hrec.active, rfl, rfl, rfl⟩ rfl fun _ =>
        h.listed.active k (h.mem.mpr hpending)
  · next hpending =>
    exact h.put ⟨hrec.fd, hrec.active, rfl, rfl, hrec.events⟩ rfl fun hp =>
      absurd hp hpending

/-- The mask of a record is set, without a change to the bits that are not for events. -/
theorem set {events : EventMask} (h : t.Models l)
    (hothers : events.others = (t.fdes k).mask.others)
    (hset : t.fdeventSet k events = .ok t') : t'.Models (l.fdeventSet k events.toEvents) := by
  rw [fdeventSet] at hset
  split at hset
  · next hsame =>
    obtain rfl := Except.ok.inj hset
    have hinterest : (l.fdes k).interest = events.toEvents := by
      rw [← (h.fdes k).mask, hsame]
    rwa [Loop.fdeventSet, if_pos hinterest]
  next hother =>
  have hinterest : (l.fdes k).interest ≠ events.toEvents := by
    rw [← (h.fdes k).mask]
    exact fun hev => hother (EventMask.ext_toEvents hev hothers.symm)
  split at hset
  · rw [fdeventUpdate, fdPut] at hset
    split at hset
    · obtain rfl := Except.ok.inj hset
      have hsets := h.congr (s := { t with
        fds := Function.update t.fds (t.fdes k).fd events.toEvents }) rfl rfl
      have := hsets.storeMask hinterest
      rwa [← storeMask_put] at this
    · cases hset
  · obtain rfl := Except.ok.inj hset
    exact h.storeMask hinterest

/-- A record that is not linked is installed. -/
theorem install {fd : Int} {room : Bool} (h : t.Models l) (hk : (t.fdes k).pending = false)
    (hinstall : t.fdeventInstall k fd room = .ok t') :
    t'.Models (l.fdeventInstall k fd.toNat) := by
  have hnot : k ∉ l.pending := fun hin =>
    absurd (hk.symm.trans (h.mem.mp hin)) Bool.false_ne_true
  have hclear : (t.clearNode k).Models l := ⟨h.fdes, h.listed.clearNode hnot⟩
  cases hrefuses : t.refuses fd room with
  | true =>
      obtain ⟨r, -, hreg⟩ := fdeventRegister_refused (k := k)
        (t := (t.clearNode k).put k { fd := fd.toNat, active := true }) hrefuses
      rw [fdeventInstall, hreg] at hinstall
      cases hinstall
  | false =>
      obtain ⟨table, max, n, heq, -⟩ := fdeventInstall_accepted (k := k) hrefuses
      rw [heq] at hinstall
      obtain rfl := Except.ok.inj hinstall
      have htable := hclear.congr (s := { t.clearNode k with
        fdTable := Function.update table fd.toNat (some k), fdTableMax := max, selectN := n })
        rfl rfl
      exact htable.put ⟨rfl, rfl, rfl, toEvents_zero,
        (EventMask.ofEvents_eq_zero.mpr rfl).symm⟩
        hk.symm fun hf => absurd hf Bool.false_ne_true

/-- An installed record is removed. -/
theorem remove (hrep : t.Rep) (h : t.Models l) (hk : (t.fdes k).active = true)
    (hfd : (t.fdes k).fd < FD_SETSIZE) (hremove : t.fdeventRemove k = .ok t') :
    t'.Models (l.fdeventRemove k) := by
  have hrec := h.fdes k
  have hcleared : Fde.Models { fd := (t.fdes k).fd }
      { l.fdes k with active := false, pending := false, interest := {}, events := {} } :=
    ⟨hrec.fd, rfl, rfl, toEvents_zero, (EventMask.ofEvents_eq_zero.mpr rfl).symm⟩
  rw [fdeventRemove_active hk, ← bind_assoc] at hremove
  rw [Loop.fdeventRemove, ← hrec.pending]
  cases hpending : (t.fdes k).pending with
  | true =>
      have hlinks : (t.fdeventPlistRemove k).Indexed := hrep.indexed.withLinks _
      rw [hpending, if_pos rfl, hlinks.disconnect hk hfd] at hremove
      obtain rfl := Except.ok.inj hremove
      exact (h.unlink hpending hcleared rfl).congr rfl rfl
  | false =>
      rw [hpending, if_neg Bool.false_ne_true, hrep.indexed.disconnect hk hfd] at hremove
      obtain rfl := Except.ok.inj hremove
      exact (h.put hcleared hpending.symm fun hf => absurd hf Bool.false_ne_true).congr rfl rfl

/-- The mask of a record gets bits. -/
theorem add {events : EventMask} (h : t.Models l)
    (hothers : ((t.fdes k).mask ||| events).others = (t.fdes k).mask.others)
    (hadd : t.fdeventAdd k events = .ok t') : t'.Models (l.fdeventAdd k events.toEvents) := by
  have := h.set hothers hadd
  rwa [EventMask.toEvents_or, (h.fdes k).mask] at this

/-- The mask of a record loses bits. -/
theorem del {events : EventMask} (h : t.Models l)
    (hothers : ((t.fdes k).mask &&& ~~~events).others = (t.fdes k).mask.others)
    (hdel : t.fdeventDel k events = .ok t') : t'.Models (l.fdeventDel k events.toEvents) := by
  have := h.set hothers hdel
  rwa [EventMask.toEvents_and_not, (h.fdes k).mask] at this

/-- The record at the front is called, if there is one. -/
theorem dispatch (h : t.Models l) (hdispatch : t.dispatch = .ok t') :
    ∃ l', l.Stepped .dispatch l' ∧ t'.Models l' := by
  have hring := h.listed.ring.next_head
  rw [Tables.dispatch] at hdispatch
  cases hp : l.pending with
  | nil =>
      have hnext : t.links.next (.head .listPending) = .head .listPending := by
        rw [hring]
        simp [hp]
      rw [hnext] at hdispatch
      obtain rfl := Except.ok.inj hdispatch
      exact ⟨l, .idle (by rw [Loop.fdeventPlistDequeue, hp]), h⟩
  | cons j rest =>
      have hnext : t.links.next (.head .listPending) = .elem j := by
        rw [hring]
        simp [hp]
      rw [hnext] at hdispatch
      obtain rfl := Except.ok.inj hdispatch
      have hrec := h.fdes j
      have hlisted : t.Listed (j :: rest) := hp ▸ h.listed
      refine ⟨_, .dispatch (by rw [Loop.fdeventPlistDequeue, hp]), ?_⟩
      refine ⟨models_put (t := t.fdeventPlistDequeue j) h.fdes ?_, hlisted.dequeue rfl⟩
      exact ⟨hrec.fd, hrec.active, rfl, hrec.mask, (EventMask.ofEvents_eq_zero.mpr rfl).symm⟩

/-- A shell has ended. -/
theorem subproc (hrep : t.Rep) (h : t.Models l) (fd rcount : Nat) :
    ∃ l', l.Stepped (.subprocExit fd rcount) l' ∧
      (t.fdeventSubprocEventFunc fd rcount).Models l' := by
  rw [fdeventSubprocEventFunc]
  split
  · exact ⟨l, .unknown, h⟩
  next hlt =>
  split
  · exact ⟨l, .unknown, h⟩
  next k hk =>
  obtain ⟨hactive, rfl⟩ := (hrep.indexed.table fd (Nat.not_le.mp hlt) k).mp hk
  have hrec := h.fdes k
  refine ⟨(l.subprocExit k rcount).1, ?_, ?_⟩
  · rw [hrec.fd]
    exact .subprocExit (hrec.active ▸ hactive)
  rw [Loop.subprocExit_eq]
  split
  · next hleft =>
    -- the record is only marked: there is more to read
    rw [if_pos (hleft.resolve_left fun hne => hne rfl)]
    have := h.put (k := k) (g := { l.fdes k with forceEof := true })
      ⟨hrec.fd, hrec.active, hrec.pending, hrec.mask, hrec.events⟩ rfl fun _ => hactive
    rwa [put_self] at this
  · next hnone =>
    rw [not_or, not_not, not_not] at hnone
    rw [if_neg (not_not.mpr hnone.2), ← hrec.pending]
    dsimp only
    split
    · next hpending =>
      refine h.put ⟨hrec.fd, hrec.active, hrec.pending, hrec.mask, ?_⟩ rfl fun _ => hactive
      dsimp only
      rw [EventMask.ofEvents_union, ← hrec.events]
      rfl
    · next hpending =>
      rw [fdeventCallFdfunc, put_put, put_fdes_self]
      have hfalse := (Bool.eq_false_iff.mpr hpending).symm
      exact h.put ⟨hrec.fd, hrec.active, hfalse.trans hrec.pending, hrec.mask,
        (EventMask.ofEvents_eq_zero.mpr rfl).symm⟩ hfalse fun hf =>
          absurd hf Bool.false_ne_true

omit [DecidableEq ι] in
/-- What is found has an installed record, and the events of its descriptor. -/
theorem found (hrep : t.Rep) (h : t.Models l) {fds : Nat → Events} {x : ι × Events}
    (hx : t.Found fds x) :
    (l.fdes x.1).active = true ∧ fds (t.fdes x.1).fd = x.2 ∧ (t.fdes x.1).fd < t.selectN := by
  obtain ⟨fd, hlt, hslot, hfds, -⟩ := hx
  obtain ⟨hactive, rfl⟩ := (hrep.indexed.table fd hlt x.1).mp hslot
  exact ⟨(h.fdes x.1).active ▸ hactive, hfds, hrep.indexed.bound _ hactive⟩

/-- The scan behind `fdevent_fd_check`, with empty sets: reads are faked. -/
theorem check (hrep : t.Rep) (h : t.Models l) {bad : Nat → Bool}
    (hcheck : (t.fdeventFdCheck bad (fun _ => {}) >>= fun p =>
      Tables.scan p.2 t.selectN 0 p.1 t) = .ok t') :
    ∃ ready, (∀ x ∈ ready, (l.fdes x.1).active = true ∧ x.2 = .onlyRead) ∧
      t'.Models (l.fdeventProcess ready) := by
  rw [fdeventFdCheck, if_neg (Nat.not_lt.mpr hrep.indexed.le)] at hcheck
  obtain ⟨ready, hready, hmodels⟩ := h.scan hrep hcheck
  refine ⟨ready, fun x hx => ?_, hmodels⟩
  obtain ⟨hactive, hfds, -⟩ := h.found hrep (hready x hx)
  obtain ⟨-, -, -, -, hne⟩ := hready x hx
  refine ⟨hactive, ?_⟩
  dsimp only at hfds
  split at hfds
  · exact hfds.symm
  · exact absurd hfds.symm hne

/-- A round of `select`, which leaves its sets empty if it finds nothing. -/
theorem process (hrep : t.Rep) (h : t.Models l) {r : SelectOutcome} {bad : Nat → Bool}
    (hready : ∀ n fds, r = .ready n fds → ∀ fd < t.selectN, (fds fd).Subset (t.fds fd))
    (hempty : ∀ fds, r = .ready 0 fds → ∀ fd, fds fd = {})
    (hprocess : t.fdeventProcess r bad = .ok t') :
    ∃ l', l.Stepped (.process r bad) l' ∧ t'.Models l' := by
  have hfaked (hcheck : (t.fdeventFdCheck bad (fun _ => {}) >>= fun p =>
      Tables.scan p.2 t.selectN 0 p.1 t) = .ok t') :
      ∃ l', l.Stepped (.process r bad) l' ∧ t'.Models l' := by
    obtain ⟨ready, hread, hmodels⟩ := h.check hrep hcheck
    exact ⟨_, .process fun x hx => ⟨(hread x hx).1, .inr (hread x hx).2⟩, hmodels⟩
  have hnone (heq : t = t') : ∃ l', l.Stepped (.process r bad) l' ∧ t'.Models l' := by
    subst heq
    have hstep : l.Stepped (.process r bad) (l.fdeventProcess []) := .process nofun
    exact ⟨l, hstep, h⟩
  unfold fdeventProcess at hprocess
  split at hprocess
  · exact nomatch hprocess
  match r, hready, hempty with
  | .eintr, _, _ => exact hnone (Except.ok.inj hprocess)
  | .error, _, _ => exact hnone (Except.ok.inj hprocess)
  | .ebadf, _, _ => exact hfaked hprocess
  | .ready 0 fds, _, hempty =>
      obtain rfl : fds = fun _ => {} := funext (hempty fds rfl)
      exact hfaked hprocess
  | .ready (n + 1) fds, hready, _ =>
      obtain ⟨ready, hfound, hmodels⟩ := h.scan hrep hprocess
      refine ⟨_, .process fun x hx => ?_, hmodels⟩
      obtain ⟨hactive, hfds, hlt⟩ := h.found hrep (hfound x hx)
      have hrec := h.fdes x.1
      have hsub := hready _ _ rfl _ hlt
      rw [hfds, hrep.indexed.sets _ (hrec.active.trans hactive), hrec.mask] at hsub
      exact ⟨hactive, .inl hsub⟩

end Models

/-! ### Steps and runs -/

/-- The other bits of the masks stay as they are, and `select` leaves its sets empty if it
finds nothing. -/
def Ordinary : Except Fatal (Tables ι) → TableAct ι → Prop
  | .ok t, .set k events => events.others = (t.fdes k).mask.others
  | .ok t, .add k events => ((t.fdes k).mask ||| events).others = (t.fdes k).mask.others
  | .ok t, .del k events => ((t.fdes k).mask &&& ~~~events).others = (t.fdes k).mask.others
  | _, .process (.ready 0 fds) _ => ∀ fd, fds fd = {}
  | _, _ => True

/-- **A step of the tables** is one of the loop they model. -/
theorem Models.step {a : TableAct ι} (hrep : t.Rep) (h : t.Models l)
    (hrange : InRange (.ok t) a)
    (hord : Ordinary (.ok t) a) (hstep : Tables.step (.ok t) a = some (.ok t')) :
    ∃ l', l.Stepped a l' ∧ t'.Models l' := by
  generalize hs : Except.ok t' = s' at hstep
  cases step_cases hstep with
  | install hk hfd => exact ⟨_, .install ((h.fdes _).pending ▸ hk), h.install hk hs.symm⟩
  | remove hk => exact ⟨_, .remove, h.remove hrep hk hrange hs.symm⟩
  | set => exact ⟨_, .set, h.set hord hs.symm⟩
  | add => exact ⟨_, .add, h.add hord hs.symm⟩
  | del => exact ⟨_, .del, h.del hord hs.symm⟩
  | process hready =>
      refine h.process hrep hready ?_ hs.symm
      rintro fds rfl
      exact hord
  | dispatch => exact h.dispatch hs.symm
  | subprocExit =>
      obtain rfl := Except.ok.inj hs
      exact h.subproc hrep _ _

/-- **A run of the tables**, if it does not end the process, is one of the loop. -/
theorem Models.run {as : List (TableAct ι)} (hrep : t.Rep) (h : t.Models l)
    (hgood : AlongSteps Tables.step (fun s a => InRange s a ∧ Ordinary s a) (.ok t) as)
    (hrun : as.foldlM Tables.step (.ok t) = some (.ok t')) :
    ∃ l', l.Run as l' ∧ t'.Models l' := by
  induction as generalizing t l with
  | nil =>
      obtain rfl := Except.ok.inj (Option.some.inj hrun)
      exact ⟨l, .nil, h⟩
  | cons a as ih =>
      obtain ⟨s, hs, hrest⟩ := Option.bind_eq_some_iff.mp hrun
      obtain ⟨⟨hrange, hord⟩, hgood⟩ := hgood s hs
      match s with
      | .error e =>
          cases as with
          | nil => exact nomatch hrest
          | cons b as => exact nomatch hrest
      | .ok t₁ =>
          obtain ⟨m, hstep, hm⟩ := h.step hrep hrange hord hs
          obtain ⟨l', hl', ht'⟩ := ih (hrep.step hrange hs).1 hm hgood hrest
          exact ⟨l', .cons hstep hl', ht'⟩

omit [DecidableEq ι] in
theorem models_empty : ({} : Tables ι).Models .empty :=
  ⟨fun _ => ⟨rfl, rfl, rfl, toEvents_zero, (EventMask.ofEvents_eq_zero.mpr rfl).symm⟩,
    ring_nil.mpr ⟨rfl, rfl⟩, fun _ => iff_of_false List.not_mem_nil Bool.false_ne_true,
    fun _ hk => absurd hk List.not_mem_nil⟩

/-- **Events are delivered**: in every state of a run from the start, a record that has events
is in the list from which the callbacks are made. -/
theorem pending_of_events {as : List (TableAct ι)}
    (hgood : AlongSteps Tables.step (fun s a => InRange s a ∧ Ordinary s a) (.ok {}) as)
    (hrun : as.foldlM Tables.step (.ok {}) = some (.ok t)) (hk : (t.fdes k).events ≠ 0) :
    (t.fdes k).pending = true := by
  obtain ⟨l, hl, hmodels⟩ := models_empty.run (sound_init (ι := ι)) hgood hrun
  have hwf := hl.wf Loop.wf_empty
  have hrec := hmodels.fdes k
  by_contra hpending
  rw [Bool.not_eq_true, hrec.pending] at hpending
  apply hk
  rw [hrec.events, hwf.events k hpending]
  exact EventMask.ofEvents_eq_zero.mpr rfl

/-- **The tables are a loop.** A run from the initial tables that does not end the process is a
run of the loop that the daemon is modelled with, and ends with tables that stand for its
state; every record that has events is on the list from which the callbacks are made. -/
theorem tables_simulated {as : List (TableAct ι)}
    (hgood : AlongSteps Tables.step (fun s a => InRange s a ∧ Ordinary s a) (.ok {}) as)
    (hrun : as.foldlM Tables.step (.ok {}) = some (.ok t)) :
    (∃ l, Loop.empty.Run as l ∧ t.Models l) ∧
      ∀ k, (t.fdes k).events ≠ 0 → (t.fdes k).pending = true :=
  ⟨models_empty.run sound_init hgood hrun, fun _ => pending_of_events hgood hrun⟩

/-- One record is installed, watched, found readable, and has an event. -/
theorem tables_simulated_read : ∃ (t : Tables Unit) (l : Loop Unit), t.Models l ∧
    (t.fdes ()).events = 1 ∧ (t.fdes ()).pending = true := by
  let as : List (TableAct Unit) := [.install () 5 true, .add () 0x01,
    .process (.ready 1 fun fd => if fd = 5 then .onlyRead else {}) fun _ => false]
  obtain ⟨t, hrun, hev⟩ : ∃ t, as.foldlM Tables.step (.ok {}) = some (.ok t) ∧
    (t.fdes ()).events = 1 := ⟨_, rfl, by decide⟩
  have hgood : AlongSteps Tables.step (fun s a => InRange s a ∧ Ordinary s a) (.ok {}) as := by
    intro s₁ h₁
    refine ⟨⟨fun h => absurd h (by decide), trivial⟩, fun s₂ h₂ => ?_⟩
    obtain rfl := Option.some.inj h₁
    refine ⟨⟨fun _ _ => by decide, rfl⟩, fun s₃ h₃ => ?_⟩
    obtain rfl := Option.some.inj h₂
    exact ⟨⟨(by decide : 6 ≤ FD_SETSIZE), trivial⟩, trivial⟩
  obtain ⟨⟨l, -, hm⟩, hpending⟩ := tables_simulated hgood hrun
  exact ⟨t, l, hm, hev, hpending () (by rw [hev]; decide)⟩

end Tables

end Adbd
