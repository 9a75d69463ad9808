import Adbd.Packets
import Adbd.Runs
import Mathlib.Algebra.Group.Nat.Defs

/-!
# The Ids of Local Sockets

`install_local_socket` gives a socket the value of `local_socket_next_id`, a counter of 32
bits that nothing keeps from going through zero, the id of a socket that is on no list, nor
from coming back to the id of a socket that is still there. `find_local_socket` returns the
first socket of the list with the id it is given.

A socket is allocated for every install, so its address says how many there were before it.

## Main definitions

* `ListAct`, `Core.listStep`: sockets are installed and removed.
* `Core.IdsSound`: the ids on the list are distinct and not zero, and tell the sockets apart.
* `ListAct.FreshId`: an install is no multiple of `2 ^ 32`, nor a multiple of it after the
  install of a socket of the list.

## Main results

* `Core.Numbered.step`: the id of a socket is the number of its install, in 32 bits.
* `ids_sound_iff`: the ids stay sound exactly along the runs of such installs.
* `ids_sound_of_lt`: they do for the first `2 ^ 32 - 1` installs.
* `ids_repeat`: after `2 ^ 32` installs they need not.
-/

namespace Adbd

open Program Runs

variable {c c' : Core} {s : SockId} {a : ASocket} {act : ListAct}

/-- What happens to `local_socket_list`. -/
inductive ListAct
  /-- `calloc` of a socket, and `install_local_socket` -/
  | install (a : ASocket)
  /-- `remove_socket` -/
  | remove (s : SockId)

/-- The calls made. -/
def ListAct.run : ListAct → M Unit
  | .install a => do
      let s ← allocSock a
      installLocalSocket s
  | .remove s => removeSocket s

/-- The memory after an action, if it is possible. -/
def Core.listStep (c : Core) (act : ListAct) : Option Core :=
  match act.run c with
  | .ok (_, c') => some c'
  | .error _ => none

/-- **The ids on the list are sound**: not zero, and distinct, so that `find_local_socket` with
the id of a socket returns this socket. -/
structure Core.IdsSound (c : Core) : Prop where
  ne_zero : ∀ s ∈ c.localSocketList, ∀ a, c.sockets s = some a → a.id ≠ 0
  distinct : ∀ s ∈ c.localSocketList, ∀ s' ∈ c.localSocketList, ∀ a a',
    c.sockets s = some a → c.sockets s' = some a' → a.id = a'.id → s = s'
  found : ∀ s ∈ c.localSocketList, ∀ a, c.sockets s = some a →
    findLocalSocket a.id c = .ok (some s, c)

/-- The number of the install of a socket. -/
def nth (s : SockId) : Nat := s + 1

/-- The install is no multiple of `2 ^ 32`, and comes no multiple of it after the install of a
socket that is on the list. -/
def ListAct.FreshId (c : Core) : ListAct → Prop
  | .install _ => nth c.nextSock % 2 ^ 32 ≠ 0 ∧
      ∀ s ∈ c.localSocketList, (nth c.nextSock - nth s) % 2 ^ 32 ≠ 0
  | .remove _ => True

/-- **The sockets on the list are numbered**: their ids are those of their installs. -/
structure Core.Numbered (c : Core) : Prop where
  next : c.localSocketNextId = UInt32.ofNat (nth c.nextSock)
  closing : c.localSocketClosingList = []
  nodup : c.localSocketList.Nodup
  member : ∀ s ∈ c.localSocketList,
    s < c.nextSock ∧ ∃ a, c.sockets s = some a ∧ a.id = UInt32.ofNat (nth s)

theorem Core.numbered_init : Core.init.Numbered where
  next := rfl
  closing := rfl
  nodup := List.nodup_nil
  member _ hs := absurd hs List.not_mem_nil

/-- The memory after an install. -/
def Core.installed (c : Core) (a : ASocket) : Core :=
  { c.putSock c.nextSock (some { a with id := c.localSocketNextId }) with
    nextSock := c.nextSock + 1
    localSocketNextId := c.localSocketNextId + 1
    localSocketList := c.localSocketList ++ [c.nextSock] }

@[simp] theorem Core.installed_nextSock (c : Core) (a : ASocket) :
    (c.installed a).nextSock = c.nextSock + 1 := rfl

@[simp] theorem Core.installed_list (c : Core) (a : ASocket) :
    (c.installed a).localSocketList = c.localSocketList ++ [c.nextSock] := rfl

/-! ### Numbers in 32 bits -/

theorem ofNat_eq_zero_iff {n : Nat} : UInt32.ofNat n = 0 ↔ n % 2 ^ 32 = 0 := by
  rw [← UInt32.toNat_inj, UInt32.toNat_ofNat', UInt32.toNat_zero]

theorem ofNat_eq_iff {m n : Nat} :
    UInt32.ofNat m = UInt32.ofNat n ↔ m % 2 ^ 32 = n % 2 ^ 32 := by
  rw [← UInt32.toNat_inj, UInt32.toNat_ofNat', UInt32.toNat_ofNat']

/-! ### Steps -/

namespace Core.Numbered

/-- The members of the list are live. -/
theorem live (h : c.Numbered) : ∀ s ∈ c.localSocketList, c.sockets s ≠ none := by
  intro s hs hnone
  obtain ⟨-, a, ha, -⟩ := h.member s hs
  rw [hnone] at ha
  cases ha

/-- An install is always possible. -/
theorem install (h : c.Numbered) (a : ASocket) :
    c.listStep (.install a) = some (c.installed a) := by
  have hrun : wp (ListAct.run (.install a)) (fun _ c' => c' = c.installed a) (fun _ => False)
      c := by
    rw [ListAct.run, wp_bind, wp_allocSock]
    refine wp_installLocalSocket (a := a) (by simp [Core.putSock]) (fun x hx => ?_) ?_
    · have hne : x ≠ c.nextSock := Nat.ne_of_lt (h.member x hx).1
      simpa [Core.putSock, hne] using h.live x hx
    · simp [Core.putSock, Core.installed]
  rw [listStep]
  rcases hr : ListAct.run (.install a) c with f | ⟨⟨⟩, c'⟩
  · exact (wp_error hrun hr).elim
  · rw [wp_ok hrun hr]

/-- A removal changes nothing but the socket. -/
theorem wp_remove (h : c.Numbered) (s : SockId) : wp (removeSocket s) (fun _ c' =>
    c'.nextSock = c.nextSock ∧ c'.localSocketNextId = c.localSocketNextId ∧
      c'.localSocketClosingList = [] ∧ c'.localSocketList = c.localSocketList.erase s ∧
      ∀ x ≠ s, c'.sockets x = c.sockets x) (fun _ => c.sockets s = none) c := by
  cases ha : c.sockets s with
  | none => simp [removeSocket, ha]
  | some a =>
      refine wp_removeSocket (a := a) ⟨ha, h.live, by simp [h.closing], by simp [h.closing]⟩
        fun id _ => ⟨rfl, rfl, by simp [Core.unlisted, h.closing], rfl, fun x hx => ?_⟩
      simp [Core.unlisted, Core.putSock, hx]

theorem remove (h : c.Numbered) (hs : c.listStep (.remove s) = some c') :
    c'.nextSock = c.nextSock ∧ c'.localSocketNextId = c.localSocketNextId ∧
      c'.localSocketClosingList = [] ∧ c'.localSocketList = c.localSocketList.erase s ∧
      ∀ x ≠ s, c'.sockets x = c.sockets x := by
  rw [listStep, ListAct.run] at hs
  split at hs
  · next hr =>
    obtain rfl := Option.some.inj hs
    exact wp_ok (m := removeSocket s) (h.wp_remove s) hr
  · cases hs

/-- It is possible for a socket of the list. -/
theorem exists_remove (h : c.Numbered) (hs : s ∈ c.localSocketList) :
    ∃ c', c.listStep (.remove s) = some c' := by
  rcases hr : removeSocket s c with f | ⟨⟨⟩, c'⟩
  · exact absurd (wp_error (h.wp_remove s) hr) (h.live s hs)
  · exact ⟨c', by rw [listStep, ListAct.run, hr]⟩

/-- **Every step keeps the numbers.** -/
theorem step (h : c.Numbered) (hs : c.listStep act = some c') : c'.Numbered := by
  cases act with
  | install a =>
      rw [h.install a] at hs
      obtain rfl := Option.some.inj hs
      refine ⟨?_, h.closing, ?_, fun x hx => ?_⟩
      · simp [Core.installed, h.next, nth]
      · refine List.nodup_append.mpr ⟨h.nodup, List.nodup_singleton _, fun x hx y hy hxy => ?_⟩
        obtain rfl := List.mem_singleton.mp hy
        exact Nat.ne_of_lt (h.member x hx).1 hxy
      · rcases List.mem_append.mp hx with hx | hx
        · obtain ⟨hlt, b, hb, hid⟩ := h.member x hx
          have hb' : (c.installed a).sockets x = some b := by
            simpa [Core.installed, Core.putSock, Nat.ne_of_lt hlt] using hb
          exact ⟨Nat.lt_succ_of_lt hlt, b, hb', hid⟩
        · obtain rfl := List.mem_singleton.mp hx
          exact ⟨Nat.lt_succ_self _, { a with id := c.localSocketNextId },
            by simp [Core.installed, Core.putSock], h.next⟩
  | remove s =>
      obtain ⟨hnext, hid, hclosing, hlist, hkeep⟩ := h.remove hs
      refine ⟨by rw [hid, hnext, h.next], hclosing, hlist ▸ h.nodup.erase s, fun x hx => ?_⟩
      rw [hlist] at hx
      rw [hnext, hkeep x ((h.nodup.mem_erase_iff.mp hx).1)]
      exact h.member x (List.mem_of_mem_erase hx)

/-- **The ids are sound** if the numbers they stand for are. -/
theorem idsSound_iff (h : c.Numbered) : c.IdsSound ↔
    (∀ s ∈ c.localSocketList, nth s % 2 ^ 32 ≠ 0) ∧
      ∀ s ∈ c.localSocketList, ∀ s' ∈ c.localSocketList,
        nth s % 2 ^ 32 = nth s' % 2 ^ 32 → s = s' := by
  constructor
  · refine fun hi => ⟨fun s hs h0 => ?_, fun s hs s' hs' heq => ?_⟩
    · obtain ⟨-, a, ha, hid⟩ := h.member s hs
      exact hi.ne_zero s hs a ha (hid.trans (ofNat_eq_zero_iff.mpr h0))
    · obtain ⟨-, a, ha, hid⟩ := h.member s hs
      obtain ⟨-, a', ha', hid'⟩ := h.member s' hs'
      exact hi.distinct s hs s' hs' a a' ha ha' (by rw [hid, hid', ofNat_eq_iff, heq])
  · rintro ⟨hzero, hinj⟩
    have hdistinct : ∀ s ∈ c.localSocketList, ∀ s' ∈ c.localSocketList, ∀ a a',
        c.sockets s = some a → c.sockets s' = some a' → a.id = a'.id → s = s' := by
      intro s hs s' hs' a a' ha ha' heq
      obtain ⟨-, b, hb, hid⟩ := h.member s hs
      obtain ⟨-, b', hb', hid'⟩ := h.member s' hs'
      obtain rfl := Option.some.inj (hb.symm.trans ha)
      obtain rfl := Option.some.inj (hb'.symm.trans ha')
      rw [hid, hid', ofNat_eq_iff] at heq
      exact hinj s hs s' hs' heq
    refine ⟨fun s hs a ha h0 => ?_, hdistinct, fun s hs a ha => ?_⟩
    · obtain ⟨-, b, hb, hid⟩ := h.member s hs
      obtain rfl := Option.some.inj (hb.symm.trans ha)
      exact hzero s hs (ofNat_eq_zero_iff.mp (hid ▸ h0))
    · have hfind : c.find a.id = some s := by
        obtain ⟨x, hx⟩ : ∃ x, c.find a.id = some x := by
          rw [← Option.isSome_iff_exists, Core.find, List.find?_isSome]
          exact ⟨s, hs, by simp [ha]⟩
        rw [Core.find] at hx
        have hany := List.find?_some hx
        obtain ⟨b, hb, hid⟩ := (Option.any_eq_true _ _).mp hany
        rw [Core.find, hx,
          hdistinct x (List.mem_of_find?_eq_some hx) s hs b a hb ha (of_decide_eq_true hid)]
      have hwp : wp (findLocalSocket a.id) (fun r c' => r = some s ∧ c' = c)
        (fun _ => False) c :=
        (wp_findLocalSocket_of h.live).mpr ⟨hfind, rfl⟩
      rcases hr : findLocalSocket a.id c with f | ⟨r, c'⟩
      · exact (wp_error hwp hr).elim
      · obtain ⟨rfl, rfl⟩ := wp_ok hwp hr
        rfl

/-- An install with a fresh id keeps the ids sound, and so does a removal. -/
theorem sound_step (h : c.Numbered) (hi : c.IdsSound) (hf : act.FreshId c)
    (hs : c.listStep act = some c') : c'.IdsSound := by
  obtain ⟨hzero, hinj⟩ := h.idsSound_iff.mp hi
  refine (h.step hs).idsSound_iff.mpr ?_
  cases act with
  | install a =>
      obtain ⟨hne, hfresh⟩ := hf
      have hnew : ∀ s ∈ c.localSocketList, nth s % 2 ^ 32 ≠ nth c.nextSock % 2 ^ 32 := by
        intro s hs heq
        have hlt : nth s < nth c.nextSock := Nat.succ_lt_succ (h.member s hs).1
        exact hfresh s hs (Nat.sub_mod_eq_zero_of_mod_eq heq.symm)
      rw [h.install a] at hs
      obtain rfl := Option.some.inj hs
      constructor
      · intro s hs
        rcases List.mem_append.mp hs with hs | hs
        · exact hzero s hs
        · obtain rfl := List.mem_singleton.mp hs
          exact hne
      · intro s hs s' hs' heq
        rcases List.mem_append.mp hs with hs | hs <;>
          rcases List.mem_append.mp hs' with hs' | hs'
        · exact hinj s hs s' hs' heq
        · obtain rfl := List.mem_singleton.mp hs'
          exact absurd heq (hnew s hs)
        · obtain rfl := List.mem_singleton.mp hs
          exact absurd heq.symm (hnew s' hs')
        · rw [List.mem_singleton.mp hs, List.mem_singleton.mp hs']
  | remove s =>
      obtain ⟨-, -, -, hlist, -⟩ := h.remove hs
      rw [hlist]
      exact ⟨fun x hx => hzero x (List.mem_of_mem_erase hx), fun x hx y hy =>
        hinj x (List.mem_of_mem_erase hx) y (List.mem_of_mem_erase hy)⟩

/-- An install whose id is not fresh breaks them. -/
theorem not_sound_step (h : c.Numbered) (hf : ¬act.FreshId c) (hs : c.listStep act = some c') :
    ¬c'.IdsSound := by
  intro hi
  obtain ⟨hzero, hinj⟩ := (h.step hs).idsSound_iff.mp hi
  cases act with
  | install a =>
      rw [h.install a] at hs
      obtain rfl := Option.some.inj hs
      refine hf ⟨hzero c.nextSock (by simp), fun s hs h0 => ?_⟩
      have hlt : nth s < nth c.nextSock := Nat.succ_lt_succ (h.member s hs).1
      exact Nat.ne_of_lt (h.member s hs).1
        (hinj s (by simp [hs]) c.nextSock (by simp) (by omega))
  | remove s => exact hf trivial

end Core.Numbered

/-- **The ids are sound in every state of a run exactly if all its installs have fresh
ids.** -/
theorem ids_sound_iff (as : List ListAct) :
    Along Core.listStep Core.IdsSound Core.init as ↔
      AlongSteps Core.listStep (fun c act => act.FreshId c) Core.init as := by
  refine along_iff_of_invariant (I := fun c => c.Numbered ∧ c.IdsSound)
    (fun _ h => h.2) (fun _ _ _ h _ hf hs => ?_)
    (fun _ _ _ h _ hf hs => h.1.not_sound_step hf hs) ?_
    (alongSteps_true : AlongSteps Core.listStep (fun _ _ => True) _ _)
  · exact ⟨h.1.step hs, h.1.sound_step h.2 hf hs⟩
  · exact ⟨Core.numbered_init, Core.numbered_init.idsSound_iff.mpr (by simp [Core.init])⟩

/-- **Along the first `2 ^ 32 - 1` installs they are.** -/
theorem ids_sound_of_lt (as : List ListAct) (h : as.length < 2 ^ 32) :
    Along Core.listStep Core.IdsSound Core.init as := by
  have hfresh (as : List ListAct) (c : Core) (hc : c.Numbered)
      (hlen : c.nextSock + as.length < 2 ^ 32) :
      AlongSteps Core.listStep (fun c act => act.FreshId c) c as := by
    induction as generalizing c with
    | nil => trivial
    | cons act as ih =>
        rw [List.length_cons] at hlen
        refine fun c' hs => ⟨?_, ih c' (hc.step hs) ?_⟩
        · cases act with
          | install a =>
              refine ⟨by rw [nth]; omega, fun s hs => ?_⟩
              have hlt : nth s < nth c.nextSock := Nat.succ_lt_succ (hc.member s hs).1
              have hmax : nth c.nextSock < 2 ^ 32 := by rw [nth]; omega
              omega
          | remove s => trivial
        · cases act with
          | install a =>
              rw [hc.install a] at hs
              obtain rfl := Option.some.inj hs
              rw [Core.installed_nextSock]
              omega
          | remove s =>
              rw [(hc.remove hs).1]
              omega
  refine along_of_invariant (I := fun c => c.Numbered ∧ c.IdsSound) (fun _ h => h.2)
    (fun _ _ _ h hf hs => ⟨h.1.step hs, h.1.sound_step h.2 hf hs⟩) ⟨Core.numbered_init, ?_⟩
    (hfresh as Core.init Core.numbered_init (by simpa [Core.init] using h))
  exact Core.numbered_init.idsSound_iff.mpr (by simp [Core.init])

/-! ### A run that goes through all ids -/

/-- A socket comes and goes, `n` times, from the `k`th address on. -/
def comeAndGo (a : ASocket) : Nat → SockId → List ListAct
  | 0, _ => []
  | n + 1, k => .install a :: .remove k :: comeAndGo a n (k + 1)

/-- The list is as before, and the counter has gone on. -/
theorem Core.Numbered.comeAndGo (h : c.Numbered) (a : ASocket) (n : Nat) :
    ∃ c', (comeAndGo a n c.nextSock).foldlM Core.listStep c = some c' ∧ c'.Numbered ∧
      c'.nextSock = c.nextSock + n ∧ c'.localSocketList = c.localSocketList := by
  induction n generalizing c with
  | zero => exact ⟨c, rfl, h, rfl, rfl⟩
  | succ n ih =>
      have hinstall := h.install a
      have h₁ := h.step hinstall
      have hnew : c.nextSock ∉ c.localSocketList := fun hs =>
        Nat.lt_irrefl _ (h.member c.nextSock hs).1
      obtain ⟨c₂, hremove⟩ := h₁.exists_remove (s := c.nextSock) (by simp)
      obtain ⟨hnext, -, -, hlist, -⟩ := h₁.remove hremove
      obtain ⟨c', hrun, h', hnext', hlist'⟩ := ih (h₁.step hremove)
      rw [hnext, Core.installed_nextSock] at hrun hnext'
      refine ⟨c', ?_, h', by omega, ?_⟩
      · rw [Adbd.comeAndGo, List.foldlM_cons, hinstall]
        change ((c.installed a).listStep (.remove c.nextSock) >>= fun c₂ =>
          (Adbd.comeAndGo a n (c.nextSock + 1)).foldlM Core.listStep c₂) = some c'
        rw [hremove]
        exact hrun
      · rw [hlist', hlist, Core.installed_list, List.erase_append_right _ hnew,
          List.erase_cons_head, List.append_nil]

/-- A socket is installed and stays, `n` others come and go, and one more is installed. -/
def stayOn (a : ASocket) (n : Nat) : List ListAct :=
  .install a :: (comeAndGo a n 1 ++ [.install a])

/-- If the last install comes a multiple of `2 ^ 32` after the first, the ids are not sound. -/
theorem stayOn_not_sound (a : ASocket) {n : Nat} (hn : (n + 1) % 2 ^ 32 = 0) :
    ∃ c, (stayOn a n).foldlM Core.listStep Core.init = some c ∧ ¬c.IdsSound := by
  have hinstall := Core.numbered_init.install a
  have h₁ := Core.numbered_init.step hinstall
  obtain ⟨c, hrun, hc, hnext, hlist⟩ := h₁.comeAndGo a n
  refine ⟨c.installed a, ?_, hc.not_sound_step (fun hf => ?_) (hc.install a)⟩
  · have hlast := hc.install a
    rw [stayOn, List.foldlM_cons, hinstall]
    change (comeAndGo a n 1 ++ [ListAct.install a]).foldlM Core.listStep
      (Core.init.installed a) = _
    rw [List.foldlM_append]
    have hrun' : (comeAndGo a n 1).foldlM Core.listStep (Core.init.installed a) =
      some c := hrun
    rw [hrun']
    change ([ListAct.install a].foldlM Core.listStep c) = _
    rw [List.foldlM_cons, hlast]
    rfl
  · refine hf.2 0 (by simp [hlist, Core.init]) ?_
    rw [hnext, nth, nth, Core.installed_nextSock]
    have h0 : Core.init.nextSock = 0 := rfl
    omega

/-- **After `2 ^ 32` installs an id comes back** while the first socket that had it is still
there. -/
theorem ids_repeat : ∃ as : List ListAct, ¬Along Core.listStep Core.IdsSound Core.init as := by
  obtain ⟨c, hrun, hc⟩ := stayOn_not_sound { kind := .localSocket } (n := 2 ^ 32 - 1)
    (by decide)
  exact ⟨_, fun h => hc (h.finish hrun)⟩

end Adbd
