import Adbd.Tasks
import Mathlib.Algebra.Group.Nat.Defs

/-!
# A Client of the Smart Socket

A client sends a request, four hexadecimal digits and as many bytes as they say, and whatever
it wants to say to the service behind it. Its bytes arrive in packets, cut anywhere. This
module is about the client as the daemon sees it, without the memory of the daemon: what the
bytes collected so far amount to, and what is sent for them. How the bytes of the request are
cut makes no difference. For those behind it it does: the packet that completes the request is
dropped with all that is in it, and every later one is sent.

## Main definitions

* `hexValue`: the number that hexadecimal digits stand for.
* `request`: what the bytes collected so far amount to.
* `Client`, `Client.next`, `Client.run`: the client, and what is sent for it.

## Main results

* `Client.run_request`: what is sent for a request and the bytes behind it.
* `Client.run_refused`: what is not a request is refused.
-/

namespace Adbd

/-! ### Hexadecimal digits -/

/-- The number that hexadecimal digits stand for, behind those that stand for `n`. -/
def hexValueFrom : Nat → List UInt8 → Option Nat
  | n, [] => some n
  | n, b :: bs =>
      match hexDigit b with
      | some c => hexValueFrom (16 * n + c.toNat) bs
      | none => none

/-- The number that hexadecimal digits stand for. -/
def hexValue (bs : List UInt8) : Option Nat := hexValueFrom 0 bs

theorem hexDigit_lt {b : UInt8} {c : UInt32} (h : hexDigit b = some c) : c.toNat < 16 := by
  have hall : ∀ n < 256,
      (hexDigit (UInt8.ofNat n)).all (fun c => decide (c.toNat < 16)) = true := by
    decide +kernel
  have hb := hall b.toNat b.toNat_lt
  rw [UInt8.ofNat_toNat, h] at hb
  simpa using hb

/-- The loop of `unhex` does not overflow on digits that fit a word. -/
theorem unhexFrom_toNat {n : UInt32} {bs : List UInt8}
    (h : (n.toNat + 1) * 16 ^ bs.length ≤ 2 ^ 32) :
    (unhexFrom n bs).toNat = (hexValueFrom n.toNat bs).getD (2 ^ 32 - 1) := by
  induction bs generalizing n with
  | nil => rfl
  | cons b bs ih =>
      rw [unhexFrom, hexValueFrom]
      cases hb : hexDigit b with
      | none => rfl
      | some c =>
          have hc := hexDigit_lt hb
          have hn : (n.toNat + 1) * 16 ≤ 2 ^ 32 := by
            calc (n.toNat + 1) * 16 ≤ (n.toNat + 1) * 16 ^ (bs.length + 1) :=
                  Nat.mul_le_mul_left _ (Nat.le_self_pow (Nat.succ_ne_zero _) 16)
              _ ≤ 2 ^ 32 := h
          have hstep : ((n <<< 4) ||| c).toNat = 16 * n.toNat + c.toNat := by
            have hshift : (n <<< 4).toNat = n.toNat <<< 4 := by
              rw [UInt32.toNat_shiftLeft]
              refine Nat.mod_eq_of_lt ?_
              rw [Nat.shiftLeft_eq]
              change n.toNat * 2 ^ 4 < 2 ^ 32
              omega
            rw [UInt32.toNat_or, hshift, ← Nat.shiftLeft_add_eq_or_of_lt hc, Nat.shiftLeft_eq]
            omega
          dsimp only
          rw [ih, hstep]
          rw [hstep]
          calc (16 * n.toNat + c.toNat + 1) * 16 ^ bs.length
              ≤ ((n.toNat + 1) * 16) * 16 ^ bs.length := Nat.mul_le_mul_right _ (by omega)
            _ = (n.toNat + 1) * 16 ^ (bs.length + 1) := by
                rw [Nat.pow_succ, Nat.mul_assoc, Nat.mul_comm 16]
            _ ≤ 2 ^ 32 := h

/-- **`unhex` of up to seven digits** is the number they stand for, and of anything else it is
`0xffffffff`. -/
theorem unhex_toNat {bs : List UInt8} (h : bs.length ≤ 7) :
    (unhex bs).toNat = (hexValue bs).getD (2 ^ 32 - 1) := by
  refine unhexFrom_toNat (n := 0) ?_
  calc (0 + 1) * 16 ^ bs.length ≤ (0 + 1) * 16 ^ 7 :=
        Nat.mul_le_mul_left _ (Nat.pow_le_pow_right (by decide) h)
    _ ≤ 2 ^ 32 := by decide

/-! ### Requests -/

/-- What a request collected so far amounts to. -/
inductive Request
  | more
  | refused
  | opens (destination : List UInt8)
deriving DecidableEq, Repr

/-- What `smart_socket_enqueue` makes of the bytes it has collected. -/
def request (bs : List UInt8) : Request :=
  if bs.length < 4 then .more
  else
    let len := (unhex (bs.take 4)).toNat
    if len < 1 ∨ len > 1024 then .refused
    else if len + 4 > bs.length then .more
    else .opens (cstr ((bs.drop 4).take len))

/-- The number of bytes a request announces: four digits for a number from 1 to 1024. -/
structure Announces (digits : List UInt8) (n : Nat) : Prop where
  length : digits.length = 4
  value : hexValue digits = some n
  pos : 1 ≤ n
  le : n ≤ 1024

theorem Announces.unhex {d : List UInt8} {n : Nat} (h : Announces d n) :
    (Adbd.unhex d).toNat = n := by
  rw [unhex_toNat (by rw [h.length]; decide), h.value]
  rfl

variable {d req R bs : List UInt8}

/-- Part of a request is not enough. -/
theorem request_more (h : Announces d req.length) (hbs : bs <+: d ++ req)
    (hlen : bs.length < req.length + 4) : request bs = .more := by
  rw [request]
  split
  · rfl
  · next h4 =>
    have htake : bs.take 4 = d := by
      have hpre : bs.take 4 <+: d ++ req := (List.take_prefix 4 bs).trans hbs
      have hl : (bs.take 4).length = d.length := by
        rw [List.length_take, h.length]
        omega
      have hpre' : bs.take 4 <+: d :=
        List.prefix_of_prefix_length_le hpre (List.prefix_append d req) (Nat.le_of_eq hl)
      exact hpre'.eq_of_length hl
    dsimp only
    rw [htake, h.unhex, if_neg (by have := h.pos; have := h.le; omega), if_pos (by omega)]

/-- All of a request opens its destination, whatever comes behind it. -/
theorem request_opens (h : Announces d req.length) (x : List UInt8) :
    request (d ++ req ++ x) = .opens (cstr req) := by
  have hd := h.length
  have htake : (d ++ req ++ x).take 4 = d := by
    rw [List.append_assoc, List.take_left' hd]
  have hdrop : (d ++ req ++ x).drop 4 = req ++ x := by
    rw [List.append_assoc, List.drop_left' hd]
  have hlen : (d ++ req ++ x).length = 4 + req.length + x.length := by
    rw [List.length_append, List.length_append, hd]
  rw [request, if_neg (by omega)]
  dsimp only
  rw [htake, hdrop, h.unhex, if_neg (by have := h.pos; have := h.le; omega), if_neg (by omega),
    List.take_left]

/-- Four bytes that announce nothing are refused. -/
theorem request_refused (hd : d.length = 4) (hn : ∀ n, ¬Announces d n) (hbs : d <+: bs) :
    request bs = .refused := by
  obtain ⟨x, rfl⟩ := hbs
  have htake : (d ++ x).take 4 = d := List.take_left' hd
  rw [request, if_neg (by rw [List.length_append]; omega)]
  dsimp only
  rw [htake, unhex_toNat (by rw [hd]; decide), if_pos]
  cases hv : hexValue d with
  | none => exact .inr (by decide)
  | some n =>
      have hnot := hn n
      by_contra hrange
      rw [Option.getD_some] at hrange
      exact hnot ⟨hd, hv, by omega, by omega⟩

/-! ### The client -/

/-- The client of a smart socket: its request is being collected; it waits for the `OKAY`; its
bytes are read, or wait for the next `OKAY`, on the stream of the remote's socket; or it was
refused. -/
inductive Client
  | collecting (got : List UInt8)
  | asked
  | ready (remote : UInt32)
  | blocked (remote : UInt32)
  | refused
deriving DecidableEq, Repr

/-- A packet is read from the client, or the remote acknowledges. -/
inductive ClientEvent
  | reads (bs : List UInt8)
  | okay (remote : UInt32)
deriving DecidableEq, Repr

/-- What is sent for the client. -/
inductive ClientPacket
  | opens (destination : List UInt8)
  | write (remote : UInt32) (bs : List UInt8)
deriving DecidableEq, Repr

/-- The packets that are read. -/
def chunks (es : List ClientEvent) : List (List UInt8) :=
  es.filterMap fun
    | .reads bs => some bs
    | .okay _ => none

namespace Client

/-- One event, if it can happen: nothing is read from a client that was refused or waits. -/
def next : Client → ClientEvent → Option (Client × List ClientPacket)
  | .collecting got, .reads bs =>
      if got.length + bs.length > MAX_PAYLOAD then some (.refused, [])
      else
        match request (got ++ bs) with
        | .more => some (.collecting (got ++ bs), [])
        | .refused => some (.refused, [])
        | .opens destination => some (.asked, [.opens destination])
  | .collecting got, .okay _ => some (.collecting got, [])
  | .asked, .okay r => some (.ready r, [])
  | .ready r, .reads bs => some (.blocked r, [.write r bs])
  | .ready r, .okay _ | .blocked r, .okay _ => some (.ready r, [])
  | .asked, .reads _ | .blocked _, .reads _ | .refused, _ => none

/-- The events of a run, and what is sent meanwhile. -/
def run : Client → List ClientEvent → Option (Client × List ClientPacket)
  | cl, [] => some (cl, [])
  | cl, e :: es =>
      (cl.next e).bind fun r => (run r.1 es).map fun r' => (r'.1, r.2 ++ r'.2)

variable {cl cl' : Client} {e : ClientEvent} {es : List ClientEvent} {ps : List ClientPacket}
  {got : List UInt8} {r : UInt32}

/-- A run that starts with an event. -/
theorem run_cons_eq_some (h : run cl (e :: es) = some (cl', ps)) : ∃ cl₁ ps₁ ps₂,
    cl.next e = some (cl₁, ps₁) ∧ run cl₁ es = some (cl', ps₂) ∧ ps = ps₁ ++ ps₂ := by
  rw [run, Option.bind_eq_some_iff] at h
  obtain ⟨⟨cl₁, ps₁⟩, hnext, h⟩ := h
  obtain ⟨⟨cl₂, ps₂⟩, hrun, heq⟩ := Option.map_eq_some_iff.mp h
  obtain ⟨rfl, rfl⟩ := Prod.mk.inj heq
  exact ⟨cl₁, ps₁, ps₂, hnext, hrun, rfl⟩

/-- A run and one more event. -/
theorem run_append_one {cl₁ cl₂ : Client} {ps₁ ps₂ : List ClientPacket}
    (h : run cl es = some (cl₁, ps₁)) (hnext : cl₁.next e = some (cl₂, ps₂)) :
    run cl (es ++ [e]) = some (cl₂, ps₁ ++ ps₂) := by
  induction es generalizing cl ps₁ with
  | nil =>
      obtain ⟨rfl, rfl⟩ := Prod.mk.inj (Option.some.inj h)
      simp [run, hnext]
  | cons e' es ih =>
      obtain ⟨cl₀, qs₁, qs₂, hnext', hrun, rfl⟩ := run_cons_eq_some h
      rw [List.cons_append, run, hnext', Option.bind_some, ih hrun, Option.map_some,
        List.append_assoc]

/-- Nothing happens to a client that was refused. -/
theorem run_refused_eq (h : run .refused es = some (cl, ps)) :
    es = [] ∧ cl = .refused ∧ ps = [] := by
  cases es with
  | nil =>
      obtain ⟨rfl, rfl⟩ := Prod.mk.inj (Option.some.inj h)
      exact ⟨rfl, rfl, rfl⟩
  | cons e es => cases h

/-- **Once the stream is open every packet is sent**, in order. -/
theorem run_stream (hcl : cl = .ready r ∨ cl = .blocked r) (h : run cl es = some (cl', ps)) :
    ps = (chunks es).map (.write r) := by
  induction es generalizing cl ps with
  | nil =>
      obtain ⟨rfl, rfl⟩ := Prod.mk.inj (Option.some.inj h)
      rfl
  | cons e es ih =>
      obtain ⟨cl₁, ps₁, ps₂, hnext, hrun, rfl⟩ := run_cons_eq_some h
      cases e with
      | reads bs =>
          rcases hcl with rfl | rfl
          · obtain ⟨rfl, rfl⟩ := Prod.mk.inj (Option.some.inj hnext)
            rw [ih (.inr rfl) hrun]
            rfl
          · cases hnext
      | okay r' =>
          have hready : cl₁ = .ready r ∧ ps₁ = [] := by
            rcases hcl with rfl | rfl <;> cases hnext <;> exact ⟨rfl, rfl⟩
          obtain ⟨rfl, rfl⟩ := hready
          exact ih (.inl rfl) hrun

/-- The `OKAY` that answers the request opens the stream. -/
theorem run_asked (h : run .asked es = some (cl', ps)) :
    ∃ r, ps = (chunks es).map (.write r) := by
  cases es with
  | nil =>
      obtain ⟨rfl, rfl⟩ := Prod.mk.inj (Option.some.inj h)
      exact ⟨0, rfl⟩
  | cons e es =>
      obtain ⟨cl₁, ps₁, ps₂, hnext, hrun, rfl⟩ := run_cons_eq_some h
      cases e with
      | reads bs => cases hnext
      | okay r =>
          obtain ⟨rfl, rfl⟩ := Prod.mk.inj (Option.some.inj hnext)
          have hps := run_stream (.inl rfl) hrun
          exact ⟨r, hps⟩

/-- **What is sent for a request and the bytes behind it**, however they are cut into packets:
the request's destination, and the packets that come after the one that completes it. What this
one has behind the request is lost. -/
theorem run_request (hd : Announces d req.length)
    (hmax : (d ++ req ++ R).length ≤ MAX_PAYLOAD) (hgot : got.length < req.length + 4)
    (hall : got ++ (chunks es).flatten = d ++ req ++ R)
    (h : run (.collecting got) es = some (cl, ps)) :
    ∃ before last after lost r, chunks es = before ++ last :: after ∧
      (got ++ before.flatten).length < req.length + 4 ∧
        got ++ before.flatten ++ last = d ++ req ++ lost ∧ R = lost ++ after.flatten ∧
          ps = .opens (cstr req) :: after.map (.write r) := by
  induction es generalizing got ps with
  | nil =>
      have hlen := congrArg List.length hall
      simp only [chunks, List.filterMap_nil, List.flatten_nil, List.append_nil,
        List.length_append, hd.length] at hlen
      omega
  | cons e es ih =>
      obtain ⟨cl₁, ps₁, ps₂, hnext, hrun, rfl⟩ := run_cons_eq_some h
      cases e with
      | okay r =>
          obtain ⟨rfl, rfl⟩ := Prod.mk.inj (Option.some.inj hnext)
          exact ih hgot hall hrun
      | reads k =>
          have hall' : got ++ k ++ (chunks es).flatten = d ++ req ++ R := by
            rw [List.append_assoc]
            exact hall
          have hfits : ¬got.length + k.length > MAX_PAYLOAD := by
            have hlen := congrArg List.length hall'
            rw [List.length_append, List.length_append] at hlen
            omega
          rw [next, if_neg hfits] at hnext
          by_cases hmore : (got ++ k).length < req.length + 4
          · -- the request is not complete yet
            have hpre : got ++ k <+: d ++ req := by
              refine List.prefix_of_prefix_length_le ⟨_, hall'⟩ (List.prefix_append _ R) ?_
              have hdreq : (d ++ req).length = 4 + req.length := by
                rw [List.length_append, hd.length]
              rw [hdreq]
              omega
            rw [request_more hd hpre hmore] at hnext
            obtain ⟨rfl, rfl⟩ := Prod.mk.inj (Option.some.inj hnext)
            obtain ⟨before, last, after, lost, r, hch, hlt, hlast, hR, hps⟩ :=
              ih hmore hall' hrun
            refine ⟨k :: before, last, after, lost, r, ?_, ?_, ?_, hR, hps⟩
            · change k :: chunks es = _
              rw [hch, List.cons_append]
            · rwa [List.flatten_cons, ← List.append_assoc]
            · rwa [List.flatten_cons, ← List.append_assoc]
          · -- this packet completes it
            obtain ⟨lost, hlost⟩ : d ++ req <+: got ++ k := by
              refine List.prefix_of_prefix_length_le (List.prefix_append _ R) ⟨_, hall'⟩ ?_
              have hdreq : (d ++ req).length = 4 + req.length := by
                rw [List.length_append, hd.length]
              rw [hdreq]
              omega
            rw [← hlost, request_opens hd lost] at hnext
            obtain ⟨rfl, rfl⟩ := Prod.mk.inj (Option.some.inj hnext)
            obtain ⟨r, hps⟩ := run_asked hrun
            refine ⟨[], k, chunks es, lost, r, rfl, by simpa using hgot, ?_, ?_, ?_⟩
            · rw [List.flatten_nil, List.append_nil, hlost]
            · rw [← hlost, List.append_assoc] at hall'
              exact (List.append_cancel_left hall').symm
            · rw [hps]
              rfl

/-- **What is not a request is refused**, however it is cut into packets, and nothing is sent
for it. -/
theorem run_refused {rest : List UInt8} (hd : d.length = 4) (hn : ∀ n, ¬Announces d n)
    (hgot : got.length < 4) (hall : got ++ (chunks es).flatten = d ++ rest)
    (h : run (.collecting got) es = some (cl, ps)) : cl = .refused ∧ ps = [] := by
  induction es generalizing got ps with
  | nil =>
      have hlen := congrArg List.length hall
      simp only [chunks, List.filterMap_nil, List.flatten_nil, List.append_nil,
        List.length_append, hd] at hlen
      omega
  | cons e es ih =>
      obtain ⟨cl₁, ps₁, ps₂, hnext, hrun, rfl⟩ := run_cons_eq_some h
      cases e with
      | okay r =>
          obtain ⟨rfl, rfl⟩ := Prod.mk.inj (Option.some.inj hnext)
          exact ih hgot hall hrun
      | reads k =>
          have hall' : got ++ k ++ (chunks es).flatten = d ++ rest := by
            rw [List.append_assoc]
            exact hall
          rw [next] at hnext
          split at hnext
          · obtain ⟨rfl, rfl⟩ := Prod.mk.inj (Option.some.inj hnext)
            obtain ⟨-, rfl, rfl⟩ := run_refused_eq hrun
            exact ⟨rfl, rfl⟩
          · by_cases hmore : (got ++ k).length < 4
            · have hreq : request (got ++ k) = .more := by rw [request, if_pos hmore]
              rw [hreq] at hnext
              obtain ⟨rfl, rfl⟩ := Prod.mk.inj (Option.some.inj hnext)
              exact ih hmore hall' hrun
            · have hpre : d <+: got ++ k :=
                List.prefix_of_prefix_length_le (List.prefix_append d rest) ⟨_, hall'⟩
                  (by omega)
              rw [request_refused hd hn hpre] at hnext
              obtain ⟨rfl, rfl⟩ := Prod.mk.inj (Option.some.inj hnext)
              obtain ⟨-, rfl, rfl⟩ := run_refused_eq hrun
              exact ⟨rfl, rfl⟩

end Client

end Adbd
