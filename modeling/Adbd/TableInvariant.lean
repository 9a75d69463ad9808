import Adbd.EventTables

/-!
# The Tables Agree

Every function of the event loop changes several of its tables, and each relies on all of them:
`fdevent_disconnect` reads the table up to `select_n`, the scan of `fdevent_process` ends the
process where a descriptor of the sets has no record, and a record is unlinked when its flag
says that it is linked. Here is what the tables have in common between two callbacks, and that
it is kept.

It is not kept for every descriptor. The table takes descriptors up to 32000 and more, and the
sets have `FD_SETSIZE` bits.

## Main definitions

* `Indexed`: the table, `select_n` and the sets are those of the installed records.
* `Listed`: the list has the pending records, each once.
* `Rep`: both.
* `Sound`: the tables agree, or a registration was refused.
* `InRange`: no record is installed twice, and no bit outside of the sets is used.

## Main results

* `Rep.step`: what one step keeps.
* `tables_agree_iff`: the runs in which the tables agree.
* `sound_of_small`: they do while the descriptors are below `FD_SETSIZE`.
-/

namespace Adbd

open ListHead Runs

namespace Tables

variable {ι : Type} [DecidableEq ι] {t t' : Tables ι} {k j : ι} {f : Fde} {l : List ι}

/-- **The table, `select_n` and the sets**: the slot of a descriptor has the record that is
installed for it, or is null; an installed descriptor is below `select_n`, which is not beyond
the table; and a descriptor is in the sets that its record has the bits of, if it has one. -/
structure Indexed (t : Tables ι) : Prop where
  table : ∀ fd < t.fdTableMax, ∀ k,
    t.fdTable fd = some k ↔ (t.fdes k).active = true ∧ (t.fdes k).fd = fd
  bound : ∀ k, (t.fdes k).active = true → (t.fdes k).fd < t.selectN
  le : t.selectN ≤ t.fdTableMax
  sets : ∀ k, (t.fdes k).active = true → t.fds (t.fdes k).fd = (t.fdes k).mask.toEvents
  free : ∀ fd, (∀ k, (t.fdes k).active = true → (t.fdes k).fd ≠ fd) → t.fds fd = {}

/-- **The pending list** runs through the pending records, each once, in both directions. Only
installed records are pending. -/
structure Listed (t : Tables ι) (l : List ι) : Prop where
  ring : Ring t.links (.head .listPending) (l.map .elem)
  mem : ∀ k, k ∈ l ↔ (t.fdes k).pending = true
  active : ∀ k ∈ l, (t.fdes k).active = true

/-- **The tables agree**. -/
structure Rep (t : Tables ι) : Prop where
  indexed : t.Indexed
  listed : ∃ l, t.Listed l

/-- The tables agree, or the process has ended because a registration was refused, and not in
`fdevent_process`, in `fdevent_unregister` or with an access outside of a table or a set. -/
def Sound : Except Fatal (Tables ι) → Prop
  | .ok t => t.Rep
  | .error (.refused r) => r ≠ .growing
  | .error _ => False

theorem toEvents_zero : EventMask.toEvents 0 = {} := by decide

/-- Sound, with `select_n` below a bound. -/
def Within (n : Nat) : Except Fatal (Tables ι) → Prop
  | .ok t => t.Rep ∧ t.selectN ≤ n
  | .error (.refused r) => r ≠ .growing
  | .error _ => False

omit [DecidableEq ι] in
theorem Within.sound {n : Nat} {s : Except Fatal (Tables ι)} (h : Within n s) : Sound s := by
  match s with
  | .ok t => exact h.1
  | .error (.refused r) => exact h

omit [DecidableEq ι] in
theorem Within.mono {m n : Nat} {s : Except Fatal (Tables ι)} (h : Within m s) (hmn : m ≤ n) :
    Within n s := by
  match s with
  | .ok t => exact ⟨h.1, Nat.le_trans h.2 hmn⟩
  | .error (.refused r) => exact h

/-! ### Replacing a record -/

@[simp] theorem put_fdes_self : (t.put k f).fdes k = f := Function.update_self ..

@[simp] theorem put_put (f g : Fde) : (t.put k f).put k g = t.put k g := by
  rw [put, put, put, Function.update_idem]

theorem put_fdes_of_ne (h : j ≠ k) : (t.put k f).fdes j = t.fdes j :=
  Function.update_of_ne h ..

namespace Indexed

omit [DecidableEq ι] in
/-- An installed descriptor is in the table. -/
theorem lt (h : t.Indexed) (hk : (t.fdes k).active = true) : (t.fdes k).fd < t.fdTableMax :=
  Nat.lt_of_lt_of_le (h.bound k hk) h.le

omit [DecidableEq ι] in
theorem slot (h : t.Indexed) (hk : (t.fdes k).active = true) :
    t.fdTable (t.fdes k).fd = some k :=
  (h.table _ (h.lt hk) k).mpr ⟨hk, rfl⟩

omit [DecidableEq ι] in
/-- A descriptor is installed once. -/
theorem inj (h : t.Indexed) (hk : (t.fdes k).active = true) (hj : (t.fdes j).active = true)
    (hfd : (t.fdes j).fd = (t.fdes k).fd) : j = k := by
  have hslot := h.slot hj
  rw [hfd, h.slot hk] at hslot
  exact (Option.some.inj hslot).symm

omit [DecidableEq ι] in
/-- The links do not matter. -/
theorem withLinks (h : t.Indexed) (m : Links (Node Anchor ι)) :
    { t with links := m }.Indexed :=
  ⟨h.table, h.bound, h.le, h.sets, h.free⟩

/-- Nor does what a record has besides its descriptor and its mask, or has while it is not
installed. -/
theorem put (h : t.Indexed) (hactive : f.active = (t.fdes k).active)
    (hf : f.active = true → f.fd = (t.fdes k).fd ∧ f.mask = (t.fdes k).mask) :
    (t.put k f).Indexed := by
  have hiff (j : ι) : ((t.put k f).fdes j).active = (t.fdes j).active := by
    by_cases hj : j = k
    · rw [hj, put_fdes_self, hactive]
    · rw [put_fdes_of_ne hj]
  have hsame (j : ι) (ha : (t.fdes j).active = true) :
      ((t.put k f).fdes j).fd = (t.fdes j).fd ∧
        ((t.put k f).fdes j).mask = (t.fdes j).mask := by
    by_cases hj : j = k
    · rw [hj, put_fdes_self]
      exact hf (hactive.trans (hj ▸ ha))
    · rw [put_fdes_of_ne hj]
      exact ⟨rfl, rfl⟩
  refine ⟨fun fd hfd j => (h.table fd hfd j).trans ?_, fun j hj => ?_, h.le, fun j hj => ?_,
    fun fd hfree => h.free fd fun j hj => ?_⟩
  · rw [hiff]
    exact and_congr_right fun ha => by rw [(hsame j ha).1]
  · rw [hiff] at hj
    rw [(hsame j hj).1]
    exact h.bound j hj
  · rw [hiff] at hj
    rw [(hsame j hj).1, (hsame j hj).2]
    exact h.sets j hj
  · rw [← (hsame j hj).1]
    exact hfree j ((hiff j).trans hj)

/-- A new mask of an installed record, with the sets. -/
theorem update (h : t.Indexed) (hk : (t.fdes k).active = true) (events : EventMask) :
    ({ t with fds := Function.update t.fds (t.fdes k).fd events.toEvents }.put k
      { t.fdes k with mask := events }).Indexed := by
  set t₁ := { t with fds := Function.update t.fds (t.fdes k).fd events.toEvents }
  have hfds (j : ι) (hj : j ≠ k) (ha : (t.fdes j).active = true) :
      t₁.fds (t.fdes j).fd = t.fds (t.fdes j).fd :=
    Function.update_of_ne (fun hfd => hj (h.inj hk ha hfd)) ..
  have hrec (j : ι) : ((t₁.put k { t.fdes k with mask := events }).fdes j).active =
      (t.fdes j).active ∧
        ((t₁.put k { t.fdes k with mask := events }).fdes j).fd = (t.fdes j).fd := by
    by_cases hj : j = k
    · rw [hj, put_fdes_self]
      exact ⟨rfl, rfl⟩
    · rw [put_fdes_of_ne hj]
      exact ⟨rfl, rfl⟩
  refine ⟨fun fd hfd j => (h.table fd hfd j).trans ?_, fun j hj => ?_, h.le, fun j hj => ?_,
    fun fd hfree => ?_⟩
  · rw [(hrec j).1, (hrec j).2]
  · rw [(hrec j).1] at hj
    rw [(hrec j).2]
    exact h.bound j hj
  · by_cases hjk : j = k
    · rw [hjk, put_fdes_self]
      exact Function.update_self ..
    · rw [put_fdes_of_ne hjk] at hj ⊢
      exact (hfds j hjk hj).trans (h.sets j hj)
  · have hne : fd ≠ (t.fdes k).fd := fun hfd =>
      hfree k ((hrec k).1.trans hk) ((hrec k).2.trans hfd.symm)
    refine (Function.update_of_ne hne ..).trans (h.free fd fun j hj => ?_)
    rw [← (hrec j).2]
    exact hfree j ((hrec j).1.trans hj)

/-- A new record for a descriptor without one. -/
theorem install {fd max n : Nat} {table : Nat → Option ι} (h : t.Indexed)
    (hk : (t.fdes k).active = false) (hfree : fd < t.fdTableMax → t.fdTable fd = none)
    (htable : ∀ i < max, table i = if i < t.fdTableMax then t.fdTable i else none)
    (hfd : fd < n) (hn : t.selectN ≤ n) (hmax : n ≤ max) :
    ({ t with fdTable := Function.update table fd (some k), fdTableMax := max,
              selectN := n }.put k
      { fd, active := true }).Indexed := by
  have hne (j : ι) (hj : (t.fdes j).active = true) : (t.fdes j).fd ≠ fd := by
    rintro rfl
    have := h.slot hj
    rw [hfree (h.lt hj)] at this
    exact nomatch this
  have hjk (j : ι) (hj : (t.fdes j).active = true) : j ≠ k := by
    rintro rfl
    rw [hk] at hj
    exact nomatch hj
  refine ⟨fun i hi j => ?_, fun j hj => ?_, hmax, fun j hj => ?_, fun i hi => ?_⟩
  · by_cases hself : i = fd
    · subst hself
      change Function.update table i (some k) i = some j ↔ _
      rw [Function.update_self]
      by_cases hj : j = k
      · rw [hj, put_fdes_self]
        exact iff_of_true rfl ⟨rfl, rfl⟩
      · rw [put_fdes_of_ne hj]
        exact iff_of_false (fun hk => hj (Option.some.inj hk).symm) fun hj => hne j hj.1 hj.2
    · change Function.update table fd (some k) i = some j ↔ _
      rw [Function.update_of_ne hself, htable i hi]
      by_cases hj : j = k
      · rw [hj, put_fdes_self]
        refine iff_of_false (fun hslot => ?_) fun hk => hself hk.2.symm
        split at hslot
        · next hold => exact hjk k ((h.table i hold k).mp hslot).1 rfl
        · exact nomatch hslot
      · rw [put_fdes_of_ne hj]
        split
        · next hold => exact h.table i hold j
        · next hnew =>
          refine iff_of_false nofun ?_
          rintro ⟨ha, rfl⟩
          exact hnew (h.lt ha)
  · by_cases hself : j = k
    · rw [hself, put_fdes_self]
      exact hfd
    · rw [put_fdes_of_ne hself] at hj ⊢
      exact Nat.lt_of_lt_of_le (h.bound j hj) hn
  · by_cases hself : j = k
    · rw [hself, put_fdes_self]
      exact (h.free fd hne).trans toEvents_zero.symm
    · rw [put_fdes_of_ne hself] at hj ⊢
      exact h.sets j hj
  · refine h.free i fun j hj => ?_
    have := hi j
    rw [put_fdes_of_ne (hjk j hj)] at this
    exact this hj

/-! ### `fdevent_disconnect` -/

omit [DecidableEq ι] in
theorem lastRegistered_succ (n : Nat) : t.lastRegistered (n + 1) =
    if (t.fdTable n).isSome then n else t.lastRegistered n := by
  rw [lastRegistered, List.range_succ, List.foldl_append]
  rfl

omit [DecidableEq ι] in
theorem lastRegistered_lt {n : Nat} (hn : 0 < n) : t.lastRegistered n < n := by
  induction n with
  | zero => exact absurd hn (Nat.lt_irrefl 0)
  | succ n ih =>
      rw [lastRegistered_succ]
      split
      · exact Nat.lt_succ_self n
      · rcases Nat.eq_zero_or_pos n with rfl | hpos
        · exact Nat.zero_lt_one
        · exact Nat.lt_succ_of_lt (ih hpos)

omit [DecidableEq ι] in
/-- No registered descriptor is beyond the last one. -/
theorem le_lastRegistered {i n : Nat} (hi : i < n) (hreg : (t.fdTable i).isSome = true) :
    i ≤ t.lastRegistered n := by
  induction n with
  | zero => exact absurd hi (Nat.not_lt_zero i)
  | succ n ih =>
      rw [lastRegistered_succ]
      split
      · exact Nat.le_of_lt_succ hi
      · next hnone =>
        refine ih (Nat.lt_of_le_of_ne (Nat.le_of_lt_succ hi) ?_)
        rintro rfl
        exact hnone hreg

/-- The record of an installed descriptor is taken out. -/
theorem remove (h : t.Indexed) (hk : (t.fdes k).active = true) (fd : Nat) :
    ({ t with
        fds := Function.update t.fds (t.fdes k).fd {}
        fdTable := Function.update t.fdTable (t.fdes k).fd none
        selectN := t.lastRegistered t.selectN + 1 }.put k { fd }).Indexed := by
  have hother (j : ι) (hj : j ≠ k) (ha : (t.fdes j).active = true) :
      (t.fdes j).fd ≠ (t.fdes k).fd := fun hfd => hj (h.inj hk ha hfd)
  refine ⟨fun i hi j => ?_, fun j hj => ?_, ?_, fun j hj => ?_, fun i hi => ?_⟩
  · change Function.update t.fdTable (t.fdes k).fd none i = some j ↔ _
    by_cases hself : i = (t.fdes k).fd
    · rw [hself, Function.update_self]
      refine iff_of_false nofun ?_
      rintro ⟨ha, hfd⟩
      by_cases hj : j = k
      · rw [hj, put_fdes_self] at ha
        exact nomatch ha
      · rw [put_fdes_of_ne hj] at ha hfd
        exact hother j hj ha hfd
    · rw [Function.update_of_ne hself]
      by_cases hj : j = k
      · rw [hj, put_fdes_self]
        refine iff_of_false (fun hslot => hself ?_) nofun
        exact ((h.table i hi k).mp hslot).2.symm
      · rw [put_fdes_of_ne hj]
        exact h.table i hi j
  · have hjk : j ≠ k := by
      rintro rfl
      rw [put_fdes_self] at hj
      exact nomatch hj
    rw [put_fdes_of_ne hjk] at hj ⊢
    exact Nat.lt_succ_of_le (le_lastRegistered (h.bound j hj) (by rw [h.slot hj]; rfl))
  · have hpos : 0 < t.selectN := Nat.lt_of_le_of_lt (Nat.zero_le _) (h.bound k hk)
    exact Nat.le_trans (lastRegistered_lt hpos) h.le
  · have hjk : j ≠ k := by
      rintro rfl
      rw [put_fdes_self] at hj
      exact nomatch hj
    rw [put_fdes_of_ne hjk] at hj ⊢
    exact (Function.update_of_ne (hother j hjk hj) ..).trans (h.sets j hj)
  · change Function.update t.fds (t.fdes k).fd {} i = {}
    by_cases hself : i = (t.fdes k).fd
    · rw [hself, Function.update_self]
    · rw [Function.update_of_ne hself]
      refine h.free i fun j hj => ?_
      by_cases hjk : j = k
      · rw [hjk]
        exact Ne.symm hself
      · have := hi j
        rw [put_fdes_of_ne hjk] at this
        exact this hj

end Indexed

/-! ### The pending list -/

namespace Listed

/-- Only the flags of a record matter. -/
theorem put (h : t.Listed l) (hpending : f.pending = (t.fdes k).pending)
    (hactive : f.pending = true → f.active = true) : (t.put k f).Listed l := by
  refine ⟨h.ring, fun j => (h.mem j).trans ?_, fun j hj => ?_⟩
  · by_cases hj : j = k
    · rw [hj, put_fdes_self, hpending]
    · rw [put_fdes_of_ne hj]
  · by_cases hjk : j = k
    · rw [hjk, put_fdes_self]
      rw [hjk, h.mem, ← hpending] at hj
      exact hactive hj
    · rw [put_fdes_of_ne hjk]
      exact h.active j hj

/-- The links of a record that is not in the list. -/
theorem ring_clearNode (h : Ring t.links (.head .listPending) (l.map .elem)) (hk : k ∉ l) :
    Ring (t.clearNode k).links (.head .listPending) (l.map .elem) := by
  have hne : ∀ x ∈ Node.head Anchor.listPending :: l.map Node.elem, x ≠ Node.elem k := by
    rintro x hx rfl
    simp [hk] at hx
  exact h.congr (fun x hx => Function.update_of_ne (hne x hx) ..)
    fun x hx => Function.update_of_ne (hne x hx) ..

theorem clearNode (h : t.Listed l) (hk : k ∉ l) : (t.clearNode k).Listed l :=
  ⟨ring_clearNode h.ring hk, h.mem, h.active⟩

/-- A record becomes pending. -/
theorem enqueue (h : t.Listed l) (hk : (t.fdes k).pending = false)
    (hpending : f.pending = true)
    (hactive : f.active = true) : ((t.put k f).fdeventPlistEnqueue k).Listed (l ++ [k]) := by
  have hnot : k ∉ l := fun hin => by
    rw [h.mem, hk] at hin
    exact nomatch hin
  refine ⟨?_, fun j => ?_, fun j hj => ?_⟩
  · rw [List.map_append]
    refine h.ring.addTail fun hin => ?_
    simp [hnot] at hin
  · change j ∈ l ++ [k] ↔ ((t.put k f).fdes j).pending = true
    rw [List.mem_append, List.mem_singleton]
    by_cases hj : j = k
    · rw [hj, put_fdes_self]
      exact iff_of_true (.inr rfl) hpending
    · rw [put_fdes_of_ne hj, ← h.mem]
      exact or_iff_left hj
  · change ((t.put k f).fdes j).active = true
    by_cases hjk : j = k
    · rw [hjk, put_fdes_self]
      exact hactive
    · rw [put_fdes_of_ne hjk]
      exact h.active j ((List.mem_append.mp hj).resolve_right fun hin =>
        hjk (List.mem_singleton.mp hin))

/-- A record that is not pending any more is taken out of the list. -/
theorem remove (h : t.Listed l) (hk : k ∈ l) (hf : f.pending = false) :
    ((t.fdeventPlistRemove k).put k f).Listed (l.erase k) := by
  have hnodup : l.Nodup := (List.nodup_cons.mp h.ring.nodup).2.of_map _
  have hnot : k ∉ l.erase k := hnodup.not_mem_erase
  have hring : Ring (t.links.listDel (.elem k)) (.head .listPending)
      ((l.erase k).map .elem) := by
    obtain ⟨l₁, l₂, rfl⟩ := List.append_of_mem hk
    have hnot₁ : k ∉ l₁ := fun hin =>
      List.disjoint_of_nodup_append hnodup hin (List.mem_cons_self ..)
    rw [List.erase_append_right _ hnot₁, List.erase_cons_head, List.map_append]
    have hring := h.ring
    rw [List.map_append, List.map_cons] at hring
    exact hring.del
  refine ⟨ring_clearNode (t := { t with links := t.links.listDel (.elem k) }) hring hnot,
    fun j => ?_, fun j hj => ?_⟩
  · rw [hnodup.mem_erase_iff]
    by_cases hj : j = k
    · rw [hj, put_fdes_self, hf]
      exact iff_of_false (fun hk => hk.1 rfl) nofun
    · rw [put_fdes_of_ne hj]
      exact (and_iff_right hj).trans (h.mem j)
  · have hjk : j ≠ k := fun hjk => hnot (hjk ▸ hj)
    rw [put_fdes_of_ne hjk]
    exact h.active j (List.mem_of_mem_erase hj)

omit [DecidableEq ι] in
/-- The record at the front has the list in front of it. -/
theorem prev_front (h : t.Listed (k :: l)) : t.links.prev (.elem k) = .head .listPending := by
  have hring : Ring t.links (.head .listPending) ([] ++ .elem k :: l.map .elem) := h.ring
  exact hring.neighbours.1

/-- The record at the front, which is called, is not pending any more. -/
theorem dequeue (h : t.Listed (k :: l)) (hf : f.pending = false) :
    ((t.fdeventPlistDequeue k).put k f).Listed l := by
  have heq : t.fdeventPlistDequeue k = t.fdeventPlistRemove k := by
    rw [fdeventPlistDequeue, fdeventPlistRemove, Links.listDel, h.prev_front]
  rw [heq]
  have := h.remove (List.mem_cons_self ..) hf
  rwa [List.erase_cons_head] at this

end Listed

/-! ### The loop -/

/-- Events for an installed record. -/
theorem Rep.notify (h : t.Rep) (hk : (t.fdes k).active = true) (events : EventMask) :
    (t.notify k events).Rep := by
  obtain ⟨l, hl⟩ := h.listed
  rw [Tables.notify]
  dsimp only
  split
  · next hpending =>
    exact ⟨h.indexed.put rfl fun _ => ⟨rfl, rfl⟩, l, hl.put rfl fun _ => hk⟩
  · next hpending =>
    have hput : (t.put k
        { t.fdes k with pending := true, events := (t.fdes k).events ||| events }).Indexed :=
      h.indexed.put rfl fun _ => ⟨rfl, rfl⟩
    exact ⟨hput.withLinks _, _, hl.enqueue (Bool.eq_false_iff.mpr hpending) rfl hk⟩

theorem notify_table (events : EventMask) :
    (t.notify k events).fdTable = t.fdTable ∧ (t.notify k events).fdTableMax = t.fdTableMax ∧
      (t.notify k events).selectN = t.selectN := by
  rw [notify]
  dsimp only
  split <;> exact ⟨rfl, rfl, rfl⟩

/-- The descriptors of the sets have records. -/
def Known (t : Tables ι) (fds : Nat → Events) (n : Nat) : Prop :=
  ∀ fd < n, fds fd ≠ {} → fd < t.fdTableMax ∧ (t.fdTable fd).isSome = true

/-- The scan comes to its end, if the descriptors it finds have records. -/
theorem Rep.scan {fds : Nat → Events} {m i : Nat} {n : Int} (h : t.Rep)
    (hfds : t.Known fds (i + m)) :
    ∃ t', scan fds m i n t = .ok t' ∧ t'.Rep ∧ t'.selectN = t.selectN := by
  induction m generalizing i n t with
  | zero => exact ⟨t, rfl, h, rfl⟩
  | succ m ih =>
      have hnext : t.Known fds (i + 1 + m) := by rwa [Nat.add_right_comm]
      rw [Tables.scan]
      split
      · exact ⟨t, rfl, h, rfl⟩
      · split
        · exact ih h hnext
        · next hevents =>
          obtain ⟨hlt, hsome⟩ := hfds i (by omega) hevents
          obtain ⟨k, hk⟩ := Option.isSome_iff_exists.mp hsome
          rw [if_neg (Nat.not_le.mpr hlt), hk]
          have hactive := ((h.indexed.table i hlt k).mp hk).1
          obtain ⟨htable, hmax, hselect⟩ :=
            notify_table (t := t) (k := k) (.ofEvents (fds i))
          rw [← hselect]
          refine ih (h.notify hactive _) fun fd hfd hne => ?_
          rw [htable, hmax]
          exact hnext fd hfd hne

omit [DecidableEq ι] in
/-- A descriptor of the sets that `select` is given has a record. -/
theorem Indexed.known (h : t.Indexed) (n : Nat) : t.Known t.fds n := by
  intro fd _ hfd
  by_contra hnot
  refine hfd (h.free fd fun k hk => ?_)
  rintro rfl
  exact hnot ⟨h.lt hk, by rw [h.slot hk]; rfl⟩

omit [DecidableEq ι] in
theorem Known.subset {fds fds' : Nat → Events} {n : Nat} (h : t.Known fds n)
    (hsub : ∀ fd < n, (fds' fd).Subset (fds fd)) : t.Known fds' n := by
  intro fd hfd hne
  refine h fd hfd fun hempty => hne ?_
  have := hsub fd hfd
  rw [hempty] at this
  obtain ⟨hread, hwrite, herror⟩ := this
  cases hev : fds' fd with
  | mk read write error => simp_all

/-- The scan behind `fdevent_fd_check`. -/
theorem Rep.check {fds : Nat → Events} (h : t.Rep) (bad : Nat → Bool)
    (hfds : t.Known fds t.selectN) :
    ∃ t', (t.fdeventFdCheck bad fds >>= fun p => Tables.scan p.2 t.selectN 0 p.1 t) = .ok t' ∧
      t'.Rep ∧ t'.selectN = t.selectN := by
  rw [fdeventFdCheck, if_neg (Nat.not_lt.mpr h.indexed.le)]
  refine h.scan fun fd hfd hne => ?_
  rw [Nat.zero_add] at hfd
  dsimp only at hne
  split at hne
  · next hhit =>
    simp only [Bool.and_eq_true] at hhit
    exact ⟨Nat.lt_of_lt_of_le hfd h.indexed.le, hhit.1.2⟩
  · exact hfds fd hfd hne

/-- A round of `select`, with sets that it was given. -/
theorem Rep.process (h : t.Rep) (hn : t.selectN ≤ FD_SETSIZE) {r : SelectOutcome}
    (hready : ∀ n fds, r = .ready n fds → ∀ fd < t.selectN, (fds fd).Subset (t.fds fd))
    (bad : Nat → Bool) :
    ∃ t', t.fdeventProcess r bad = .ok t' ∧ t'.Rep ∧ t'.selectN = t.selectN := by
  unfold fdeventProcess
  rw [if_neg (Nat.not_lt.mpr hn)]
  match r, hready with
  | .eintr, _ => exact ⟨t, rfl, h, rfl⟩
  | .error, _ => exact ⟨t, rfl, h, rfl⟩
  | .ebadf, _ => exact h.check bad fun _ _ hne => absurd rfl hne
  | .ready 0 fds, hready =>
      exact h.check bad ((h.indexed.known _).subset (hready _ _ rfl))
  | .ready (n + 1) fds, hready =>
      refine h.scan ?_
      rw [Nat.zero_add]
      exact (h.indexed.known _).subset (hready _ _ rfl)

/-- A callback. -/
theorem Rep.dispatch (h : t.Rep) :
    ∃ t', t.dispatch = .ok t' ∧ t'.Rep ∧ t'.selectN = t.selectN := by
  obtain ⟨l, hl⟩ := h.listed
  cases l with
  | nil =>
      have hnext : t.links.next (.head .listPending) = .head .listPending := hl.ring.next_head
      exact ⟨t, by rw [Tables.dispatch, hnext], h, rfl⟩
  | cons k l =>
      have hnext : t.links.next (.head .listPending) = .elem k := hl.ring.next_head
      have hlinks : (t.fdeventPlistDequeue k).Indexed := h.indexed.withLinks _
      exact ⟨(t.fdeventPlistDequeue k).fdeventCallFdfunc k, by rw [Tables.dispatch, hnext],
        ⟨hlinks.put rfl fun _ => ⟨rfl, rfl⟩, l, hl.dequeue rfl⟩, rfl⟩

/-- A notification that a process has ended. -/
theorem Rep.subproc (h : t.Rep) (fd rcount : Nat) :
    (t.fdeventSubprocEventFunc fd rcount).Rep ∧
      (t.fdeventSubprocEventFunc fd rcount).selectN = t.selectN := by
  obtain ⟨l, hl⟩ := h.listed
  rw [fdeventSubprocEventFunc]
  split
  · exact ⟨h, rfl⟩
  · next hlt =>
    split
    · exact ⟨h, rfl⟩
    · next k hk =>
      have hactive := ((h.indexed.table fd (Nat.not_le.mp hlt) k).mp hk).1
      split
      · exact ⟨h, rfl⟩
      · dsimp only
        split
        · exact ⟨⟨h.indexed.put rfl fun _ => ⟨rfl, rfl⟩, l, hl.put rfl fun _ => hactive⟩, rfl⟩
        · next hpending =>
          rw [fdeventCallFdfunc, put_put, put_fdes_self]
          exact ⟨⟨h.indexed.put rfl fun _ => ⟨rfl, rfl⟩, l,
            hl.put (Bool.eq_false_iff.mpr hpending).symm nofun⟩, rfl⟩

/-! ### The interface -/

/-- `fdevent_register` refuses a descriptor: it is negative, or the table would have to grow
and it is too large or there is no memory. -/
def refuses (t : Tables ι) (fd : Int) (room : Bool) : Bool :=
  decide (fd < 0) ||
    (decide (t.fdTableMax ≤ fd.toNat) && (decide (32000 < fd.toNat) || !room))

omit [DecidableEq ι] in
/-- A refusal ends the process, and never because the loop has no end. -/
theorem fdeventRegister_refused {fd : Int} {room : Bool} (h : t.refuses fd room = true) :
    ∃ r, r ≠ Refusal.growing ∧ t.fdeventRegister k fd room = .error (.refused r) := by
  rw [fdeventRegister]
  by_cases hneg : fd < 0
  · exact ⟨.negative fd, Refusal.noConfusion, if_pos hneg⟩
  · simp only [refuses, hneg, decide_false, Bool.false_or, Bool.and_eq_true, Bool.or_eq_true,
      decide_eq_true_eq] at h
    rw [if_neg hneg, if_pos h.1]
    by_cases hhuge : 32000 < fd.toNat
    · exact ⟨.huge fd.toNat, Refusal.noConfusion, if_pos hhuge⟩
    · have hroom : room = false := by simpa using h.2.resolve_left hhuge
      obtain ⟨max, hmax, -⟩ := growLoop_startMax fd.toNat t.fdTableMax
      rw [if_neg hhuge, hmax, hroom]
      exact ⟨.noMemory max, Refusal.noConfusion, rfl⟩

omit [DecidableEq ι] in
/-- The table behind a registration: the slots it had are as they were, the others are null. -/
theorem fdeventRegister_accepted {fd : Int} {room : Bool} (h : t.refuses fd room = false) :
    ∃ table max, t.fdeventRegister k fd room =
        .ok { t with fdTable := Function.update table fd.toNat (some k), fdTableMax := max } ∧
      0 ≤ fd ∧ fd.toNat < max ∧ t.fdTableMax ≤ max ∧
      ∀ i < max, table i = if i < t.fdTableMax then t.fdTable i else none := by
  simp only [refuses, Bool.or_eq_false_iff, decide_eq_false_iff_not] at h
  obtain ⟨hneg, hrest⟩ := h
  rw [fdeventRegister, if_neg hneg]
  by_cases hgrow : t.fdTableMax ≤ fd.toNat
  · simp only [hgrow, decide_true, Bool.true_and, Bool.or_eq_false_iff,
      decide_eq_false_iff_not, Bool.not_eq_false'] at hrest
    obtain ⟨max, hmax, hfd, hle⟩ := growLoop_startMax fd.toNat t.fdTableMax
    refine ⟨fun i => if i < t.fdTableMax then t.fdTable i else none, max, ?_,
      Int.not_lt.mp hneg, hfd, hle, fun i _ => rfl⟩
    rw [if_pos hgrow, if_neg hrest.1, hmax, hrest.2]
    rfl
  · rw [if_neg hgrow]
    exact ⟨t.fdTable, t.fdTableMax, rfl, Int.not_lt.mp hneg, Nat.not_le.mp hgrow,
      Nat.le_refl _, fun i hi => (if_pos hi).symm⟩

/-- What is installed, if it is not refused. -/
theorem fdeventInstall_accepted {fd : Int} {room : Bool} (h : t.refuses fd room = false) :
    ∃ table max n, t.fdeventInstall k fd room =
        .ok ({ t.clearNode k with
          fdTable := Function.update table fd.toNat (some k)
          fdTableMax := max
          selectN := n }.put k { fd := fd.toNat, active := true }) ∧
      0 ≤ fd ∧ fd.toNat < n ∧ t.selectN ≤ n ∧ n ≤ t.selectN ⊔ (fd.toNat + 1) ∧
      t.fdTableMax ≤ max ∧ (t.selectN ≤ t.fdTableMax → n ≤ max) ∧
      ∀ i < max, table i = if i < t.fdTableMax then t.fdTable i else none := by
  obtain ⟨table, max, hreg, hpos, hfd, hle, htable⟩ := fdeventRegister_accepted
    (t := (t.clearNode k).put k { fd := fd.toNat, active := true }) (k := k) h
  refine ⟨table, max, if t.selectN ≤ fd.toNat then fd.toNat + 1 else t.selectN, ?_,
    hpos, ?_, ?_, ?_, hle, ?_, htable⟩
  · rw [fdeventInstall, hreg]
    refine congrArg Except.ok ?_
    simp only [fdeventConnect, put, Function.update_self, clearNode]
    split <;> rfl
  · split <;> omega
  · split <;> omega
  · split <;> omega
  · intro hn
    change t.fdTableMax ≤ max at hle
    split <;> omega

/-- A record that is not linked is installed on a descriptor without one: it is refused, or the
tables agree. -/
theorem Rep.install {fd : Int} {room : Bool} (h : t.Rep) (hk : (t.fdes k).pending = false)
    (hfd : t.registered fd = false)
    (hactive : (t.fdes k).active = true → t.refuses fd room = true) :
    Within (t.selectN ⊔ (fd.toNat + 1)) (t.fdeventInstall k fd room) := by
  cases hrefuses : t.refuses fd room with
  | true =>
      obtain ⟨r, hr, hreg⟩ := fdeventRegister_refused (k := k)
        (t := (t.clearNode k).put k { fd := fd.toNat, active := true }) hrefuses
      rw [fdeventInstall, hreg]
      exact hr
  | false =>
      obtain ⟨l, hl⟩ := h.listed
      obtain ⟨table, max, n, heq, hpos, hn, hle, hreach, hmax, hnmax, htable⟩ :=
        fdeventInstall_accepted (k := k) hrefuses
      have hinactive : (t.fdes k).active = false := by
        by_contra hne
        rw [hactive (Bool.not_eq_false _ ▸ hne)] at hrefuses
        exact nomatch hrefuses
      have hnot : k ∉ l := fun hin => by
        rw [hl.mem, hk] at hin
        exact nomatch hin
      have hfree : fd.toNat < t.fdTableMax → t.fdTable fd.toNat = none := fun hlt => by
        simpa [registered, hpos, hlt] using hfd
      rw [heq]
      refine ⟨⟨(h.indexed.withLinks _).install hinactive hfree htable hn hle
        (hnmax h.indexed.le),
        l, ?_⟩, hreach⟩
      have := (hl.clearNode hnot).put (k := k) (f := { fd := fd.toNat, active := true })
        hk.symm nofun
      exact ⟨this.ring, this.mem, this.active⟩

/-- An installed record is taken out of the sets and the table. -/
theorem Indexed.disconnect (h : t.Indexed) (hk : (t.fdes k).active = true)
    (hfd : (t.fdes k).fd < FD_SETSIZE) :
    (t.fdeventDisconnect k >>= fun t => t.fdeventUnregister k) =
      .ok { t with
        fds := Function.update t.fds (t.fdes k).fd {}
        fdTable := Function.update t.fdTable (t.fdes k).fd none
        selectN := t.lastRegistered t.selectN + 1 } := by
  have hdisconnect : t.fdeventDisconnect k =
      .ok { t with
        fds := Function.update t.fds (t.fdes k).fd {}
        selectN := t.lastRegistered t.selectN + 1 } := by
    rw [fdeventDisconnect, fdPut, if_pos hfd]
    exact if_neg (Nat.not_lt.mpr h.le)
  rw [hdisconnect]
  refine (if_neg (Nat.not_le.mpr (h.lt hk))).trans (if_neg ?_)
  exact not_not.mpr (h.slot hk)

/-- The record `fdevent_remove` unlinks has the same flags. -/
theorem fdeventRemove_active (hk : (t.fdes k).active = true) :
    t.fdeventRemove k =
      ((if (t.fdes k).pending then t.fdeventPlistRemove k else t).fdeventDisconnect k >>=
        fun t => t.fdeventUnregister k >>= fun t =>
          .ok (t.put k { fd := (t.fdes k).fd })) := by
  have hsame : ((if (t.fdes k).pending then t.fdeventPlistRemove k else t).fdes k).active =
      true := by
    split <;> exact hk
  rw [fdeventRemove]
  dsimp only
  rw [if_pos hsame]

/-- An installed record is removed, whether it is pending or not. -/
theorem Rep.remove (h : t.Rep) (hk : (t.fdes k).active = true)
    (hfd : (t.fdes k).fd < FD_SETSIZE) :
    ∃ t', t.fdeventRemove k = .ok t' ∧ t'.Rep ∧ t'.selectN ≤ t.selectN := by
  obtain ⟨l, hl⟩ := h.listed
  have hlast : t.lastRegistered t.selectN + 1 ≤ t.selectN :=
    Indexed.lastRegistered_lt (Nat.lt_of_le_of_lt (Nat.zero_le _) (h.indexed.bound k hk))
  rw [fdeventRemove_active hk, ← bind_assoc]
  cases hpending : (t.fdes k).pending with
  | true =>
      have hlinks : (t.fdeventPlistRemove k).Indexed := h.indexed.withLinks _
      rw [if_pos rfl, hlinks.disconnect hk hfd]
      refine ⟨_, rfl, ⟨hlinks.remove hk (t.fdes k).fd, l.erase k, ?_⟩, hlast⟩
      have := hl.remove (f := { fd := (t.fdes k).fd }) ((hl.mem k).mpr hpending) rfl
      exact ⟨this.ring, this.mem, this.active⟩
  | false =>
      rw [if_neg Bool.false_ne_true, h.indexed.disconnect hk hfd]
      refine ⟨_, rfl, ⟨h.indexed.remove hk (t.fdes k).fd, l, ?_⟩, hlast⟩
      have := hl.put (k := k) (f := { fd := (t.fdes k).fd }) hpending.symm nofun
      exact ⟨this.ring, this.mem, this.active⟩

/-- A descriptor without a bit is removed. -/
theorem fdeventRemove_out (hk : (t.fdes k).active = true) (hfd : ¬(t.fdes k).fd < FD_SETSIZE) :
    t.fdeventRemove k = .error .outOfBounds := by
  rw [fdeventRemove_active hk]
  have hout (t₁ : Tables ι) (hsame : t₁.fdes = t.fdes) :
      t₁.fdeventDisconnect k = .error .outOfBounds := by
    rw [fdeventDisconnect, fdPut, hsame, if_neg hfd]
    rfl
  split
  · rw [hout (t.fdeventPlistRemove k) rfl]
    rfl
  · rw [hout t rfl]
    rfl

/-- The mask of an installed record is the one of the sets. The record stays in the list, or is
taken out of it. -/
theorem Rep.storeMask {events : EventMask} (h : t.Rep)
    (hmask : (t.fdes k).active = true → (t.fdes k).mask = events) :
    (t.storeMask k events).Rep := by
  obtain ⟨l, hl⟩ := h.listed
  rw [Tables.storeMask]
  dsimp only
  split
  · next hpending =>
    have hin := (hl.mem k).mpr hpending
    have hactive := hl.active k hin
    split
    · have hlinks : (t.fdeventPlistRemove k).Indexed := h.indexed.withLinks _
      exact ⟨hlinks.put rfl fun ha => ⟨rfl, (hmask ha).symm⟩, _, hl.remove hin rfl⟩
    · exact ⟨h.indexed.put rfl fun ha => ⟨rfl, (hmask ha).symm⟩, l,
        hl.put rfl fun _ => hactive⟩
  · next hpending =>
    exact ⟨h.indexed.put rfl fun ha => ⟨rfl, (hmask ha).symm⟩, l,
      hl.put rfl fun hp => absurd hp hpending⟩

theorem storeMask_selectN (events : EventMask) :
    (t.storeMask k events).selectN = t.selectN := by
  rw [storeMask]
  dsimp only
  split
  · split <;> rfl
  · rfl

/-- A new mask needs the bits of its descriptor, if it is another and the record is
installed. -/
def SetInRange (t : Tables ι) (k : ι) (events : EventMask) : Prop :=
  (t.fdes k).active = true → (t.fdes k).mask ≠ events → (t.fdes k).fd < FD_SETSIZE

/-- A mask is set. -/
theorem Rep.set {events : EventMask} (h : t.Rep) (hrange : t.SetInRange k events) :
    ∃ t', t.fdeventSet k events = .ok t' ∧ t'.Rep ∧ t'.selectN = t.selectN := by
  obtain ⟨l, hl⟩ := h.listed
  rw [fdeventSet]
  split
  · exact ⟨t, rfl, h, rfl⟩
  · next hother =>
    split
    · next hactive =>
      rw [fdeventUpdate, fdPut, if_pos (hrange hactive hother)]
      have hlisted := hl.put (k := k) (f := { t.fdes k with mask := events }) rfl
        fun _ => hactive
      refine ⟨_, rfl,
        Rep.storeMask ⟨h.indexed.update hactive events, l, hlisted.ring, hlisted.mem,
        hlisted.active⟩ fun _ => ?_, storeMask_selectN events⟩
      rw [put_fdes_self]
    · next hinactive =>
      exact ⟨_, rfl, h.storeMask fun ha => absurd ha hinactive, storeMask_selectN events⟩

/-- A mask of a descriptor without bits is set. -/
theorem fdeventSet_out {events : EventMask} (hrange : ¬t.SetInRange k events) :
    t.fdeventSet k events = .error .outOfBounds := by
  rw [SetInRange, Classical.not_imp, Classical.not_imp] at hrange
  obtain ⟨hactive, hother, hfd⟩ := hrange
  rw [fdeventSet, if_neg hother, if_pos hactive, fdeventUpdate, fdPut, if_neg hfd]
  rfl

/-- A record that is installed already stays in the slot of its old descriptor. -/
theorem fdeventInstall_twice {fd : Int} {room : Bool} (h : t.Rep)
    (hfd : t.registered fd = false)
    (hk : (t.fdes k).active = true) (hok : t.refuses fd room = false) :
    ¬Sound (t.fdeventInstall k fd room) := by
  obtain ⟨table, max, n, heq, hpos, -, -, -, hmax, -, htable⟩ :=
    fdeventInstall_accepted (k := k) hok
  have hlt := h.indexed.lt hk
  have hne : (t.fdes k).fd ≠ fd.toNat := by
    intro hold
    have hslot := h.indexed.slot hk
    rw [hold] at hslot hlt
    simp [registered, hpos, hlt, hslot] at hfd
  rw [heq]
  intro hrep
  have hslot : Function.update table fd.toNat (some k) (t.fdes k).fd = some k := by
    rw [Function.update_of_ne hne, htable _ (Nat.lt_of_lt_of_le hlt hmax), if_pos hlt]
    exact h.indexed.slot hk
  have hold := ((hrep.indexed.table _ (Nat.lt_of_lt_of_le hlt hmax) k).mp hslot).2
  rw [put_fdes_self] at hold
  exact hne hold.symm

/-! ### Runs -/

/-- **What a step does**, and when it is possible. -/
inductive Stepped (t : Tables ι) : TableAct ι → Except Fatal (Tables ι) → Prop
  | install {k : ι} {fd : Int} {room : Bool} (hk : (t.fdes k).pending = false)
      (hfd : t.registered fd = false) :
      t.Stepped (.install k fd room) (t.fdeventInstall k fd room)
  | remove {k : ι} (hk : (t.fdes k).active = true) : t.Stepped (.remove k) (t.fdeventRemove k)
  | set {k : ι} {events : EventMask} : t.Stepped (.set k events) (t.fdeventSet k events)
  | add {k : ι} {events : EventMask} : t.Stepped (.add k events) (t.fdeventAdd k events)
  | del {k : ι} {events : EventMask} : t.Stepped (.del k events) (t.fdeventDel k events)
  | process {r : SelectOutcome} {bad : Nat → Bool}
      (hready : ∀ n fds, r = .ready n fds → ∀ fd < t.selectN, (fds fd).Subset (t.fds fd)) :
      t.Stepped (.process r bad) (t.fdeventProcess r bad)
  | dispatch : t.Stepped .dispatch t.dispatch
  | subprocExit {fd rcount : Nat} :
      t.Stepped (.subprocExit fd rcount) (.ok (t.fdeventSubprocEventFunc fd rcount))

/-- **Step cases.** The steps are looked at here only. -/
theorem step_cases {s' : Except Fatal (Tables ι)} {a : TableAct ι}
    (hs : Tables.step (.ok t) a = some s') : t.Stepped a s' := by
  match a with
  | .install k fd room =>
      rw [Tables.step] at hs
      split at hs
      · exact nomatch hs
      · next hfree =>
        obtain rfl := Option.some.inj hs
        rw [not_or, Bool.not_eq_true, Bool.not_eq_true] at hfree
        exact .install hfree.1 hfree.2
  | .remove k =>
      rw [Tables.step] at hs
      split at hs
      · next hk =>
        obtain rfl := Option.some.inj hs
        exact .remove hk
      · exact nomatch hs
  | .set k events =>
      obtain rfl := Option.some.inj hs
      exact .set
  | .add k events =>
      obtain rfl := Option.some.inj hs
      exact .add
  | .del k events =>
      obtain rfl := Option.some.inj hs
      exact .del
  | .process (.ready n fds) bad =>
      rw [Tables.step] at hs
      split at hs
      · next hsub =>
        obtain rfl := Option.some.inj hs
        refine .process ?_
        rintro _ _ ⟨⟩
        exact hsub
      · exact nomatch hs
  | .process .eintr bad | .process .ebadf bad | .process .error bad =>
      obtain rfl := Option.some.inj hs
      exact .process (fun _ _ hr => nomatch hr)
  | .dispatch =>
      obtain rfl := Option.some.inj hs
      exact .dispatch
  | .subprocExit fd rcount =>
      obtain rfl := Option.some.inj hs
      exact .subprocExit

/-- What an action may raise `select_n` to. -/
def reach : TableAct ι → Nat
  | .install _ fd _ => fd.toNat + 1
  | _ => 0

/-- No record is installed twice, and no bit outside of the sets is used: not by the removal of
a record, not by another mask of an installed record, and not by `select`. -/
def InRange : Except Fatal (Tables ι) → TableAct ι → Prop
  | .ok t, .install k fd room => (t.fdes k).active = true → t.refuses fd room = true
  | .ok t, .remove k => (t.fdes k).fd < FD_SETSIZE
  | .ok t, .set k events => t.SetInRange k events
  | .ok t, .add k events => t.SetInRange k ((t.fdes k).mask ||| events)
  | .ok t, .del k events => t.SetInRange k ((t.fdes k).mask &&& ~~~events)
  | .ok t, .process _ _ => t.selectN ≤ FD_SETSIZE
  | _, _ => True

omit [DecidableEq ι] in
theorem within_of_exists {n : Nat} {s : Except Fatal (Tables ι)}
    (h : ∃ t', s = .ok t' ∧ t'.Rep ∧ t'.selectN ≤ n) : Within n s := by
  obtain ⟨t', rfl, ht'⟩ := h
  exact ht'

omit [DecidableEq ι] in
theorem within_of_eq {s : Except Fatal (Tables ι)}
    (h : ∃ t', s = .ok t' ∧ t'.Rep ∧ t'.selectN = t.selectN) : Within t.selectN s := by
  obtain ⟨t', rfl, hrep, hn⟩ := h
  exact ⟨hrep, Nat.le_of_eq hn⟩

/-- **A step within the sets**. Only an installation raises `select_n`. -/
theorem Rep.step {s' : Except Fatal (Tables ι)} {a : TableAct ι} (h : t.Rep)
    (hrange : InRange (.ok t) a) (hstep : Tables.step (.ok t) a = some s') :
    Within (t.selectN ⊔ reach a) s' := by
  have hkeep (hs : Within t.selectN s') : Within (t.selectN ⊔ reach a) s' :=
    hs.mono le_sup_left
  cases step_cases hstep with
  | install hk hfd => exact h.install hk hfd hrange
  | remove hk => exact hkeep (within_of_exists (h.remove hk hrange))
  | set | add | del => exact hkeep (within_of_eq (h.set hrange))
  | process hready => exact hkeep (within_of_eq (h.process hrange hready _))
  | dispatch => exact hkeep (within_of_eq h.dispatch)
  | subprocExit =>
      obtain ⟨hrep, hn⟩ := h.subproc _ _
      exact hkeep ⟨hrep, Nat.le_of_eq hn⟩

theorem Sound.step {s s' : Except Fatal (Tables ι)} {a : TableAct ι} (h : Sound s)
    (hrange : InRange s a) (hstep : Tables.step s a = some s') : Sound s' := by
  match s with
  | .error _ => exact nomatch hstep
  | .ok t => exact (Rep.step h hrange hstep).sound

/-- Another step ends the process, or leaves a record in two slots. -/
theorem not_sound_of_out {s s' : Except Fatal (Tables ι)} {a : TableAct ι} (h : Sound s)
    (hrange : ¬InRange s a) (hstep : Tables.step s a = some s') : ¬Sound s' := by
  have hstop {s : Except Fatal (Tables ι)} (hs : s = .error .outOfBounds) : ¬Sound s := by
    rw [hs]
    exact not_false
  match s with
  | .error _ => exact nomatch hstep
  | .ok t =>
      cases step_cases hstep with
      | install hk hfd =>
          rw [InRange, Classical.not_imp, Bool.not_eq_true] at hrange
          exact fdeventInstall_twice h hfd hrange.1 hrange.2
      | remove hk => exact hstop (fdeventRemove_out hk hrange)
      | set | add | del => exact hstop (fdeventSet_out hrange)
      | process => exact hstop (if_pos (Nat.not_le.mp hrange))
      | dispatch | subprocExit => exact absurd trivial hrange

omit [DecidableEq ι] in
theorem sound_init : Sound (.ok ({} : Tables ι)) := by
  refine ⟨⟨?_, ?_, Nat.le_refl 0, ?_, fun _ _ => rfl⟩, [], ring_nil.mpr ⟨rfl, rfl⟩, ?_, ?_⟩
  · exact fun fd hfd => absurd hfd (Nat.not_lt_zero fd)
  · exact fun k hk => absurd hk Bool.false_ne_true
  · exact fun k hk => absurd hk Bool.false_ne_true
  · exact fun k => iff_of_false List.not_mem_nil Bool.false_ne_true
  · exact fun k hk => absurd hk List.not_mem_nil

/-- **The tables of the event loop** agree in every state of a run, and none of the `FATAL`s
about them is reached, if and only if no record is installed twice and no bit outside of the
sets is used. -/
theorem tables_agree_iff (as : List (TableAct ι)) :
    Along step Sound (.ok {}) as ↔ AlongSteps step InRange (.ok {}) as :=
  along_iff_of_invariant (fun _ hs => hs) (fun _ _ _ hs _ ha h => hs.step ha h)
    (fun _ _ _ hs _ ha h => not_sound_of_out hs ha h) sound_init alongSteps_true

/-- Only a record that is not installed is installed, on a descriptor with bits in the sets. -/
def Small : Except Fatal (Tables ι) → TableAct ι → Prop
  | .ok t, .install k fd _ => (t.fdes k).active = false ∧ fd < FD_SETSIZE
  | _, _ => True

/-- Then every step is within the sets. -/
theorem Rep.inRange {s' : Except Fatal (Tables ι)} {a : TableAct ι} (h : t.Rep)
    (hn : t.selectN ≤ FD_SETSIZE) (ha : Small (.ok t) a)
    (hstep : Tables.step (.ok t) a = some s') : InRange (.ok t) a := by
  have hlt {k : ι} (hk : (t.fdes k).active = true) : (t.fdes k).fd < FD_SETSIZE :=
    Nat.lt_of_lt_of_le (h.indexed.bound k hk) hn
  cases step_cases hstep with
  | install => exact fun hk => absurd (ha.1.symm.trans hk) Bool.false_ne_true
  | remove hk => exact hlt hk
  | set | add | del => exact fun hk _ => hlt hk
  | process => exact hn
  | dispatch | subprocExit => trivial

/-- **The tables agree** in every run that installs records on descriptors below
`FD_SETSIZE`. -/
theorem sound_of_small (as : List (TableAct ι)) (h : AlongSteps step Small (.ok {}) as) :
    Along step Sound (.ok {}) as := by
  refine along_of_invariant (I := Within FD_SETSIZE) (fun _ hs => hs.sound) ?_
    ⟨sound_init, Nat.zero_le _⟩ h
  intro s a s' hs ha hstep
  match s with
  | .error _ => exact nomatch hstep
  | .ok t =>
      refine (Rep.step hs.1 (hs.1.inRange hs.2 ha hstep) hstep).mono (sup_le hs.2 ?_)
      match a with
      | .install k fd room =>
          have hfd := ha.2
          simp only [reach, FD_SETSIZE] at hfd ⊢
          omega
      | .remove k | .set k events | .add k events | .del k events | .process r bad
      | .dispatch | .subprocExit fd rcount => exact Nat.zero_le _

/-- The descriptor 1024 is installed, and read from. -/
theorem tables_agree_fails :
    ¬Along step Sound (.ok ({} : Tables Unit)) [.install () 1024 true, .add () 0x01] := by
  intro h
  obtain ⟨t', hinstall, hout⟩ : ∃ t', step (.ok ({} : Tables Unit)) (.install () 1024 true) =
      some (.ok t') ∧ step (.ok t') (.add () 0x01) = some (.error .outOfBounds) :=
        ⟨_, rfl, rfl⟩
  exact (h.2 _ hinstall).2 _ hout

end Tables

end Adbd
