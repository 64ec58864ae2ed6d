import CsiHttp.Lib.Schedules
import CsiHttp.Service.Dispatching

/-!
# The order between connections does not matter

The acceptor and every connection see their own events. As long as each of them sees the same
events in the same order, the single thread of the `io_service` can take them in any order: the
whole system ends in the same state, the counters of the handlers included.
-/
namespace CsiHttp.Service

open Lib Lib.Text Lib.Runs Lib.Schedules Server

/-- Where an event is seen: at the acceptor (`none`), or at a connection, which also sees that it
is accepted. -/
def Event.seen : Event → Option Nat → Bool
  | .accept _ _ _, none => true
  | .accept n _ _, some i => i == n
  | .connection _ _, none => false
  | .connection j _, some i => i == j

variable {E : Externals} {T : Scheme E} {patterns : List Bytes}

/-! ## The counters -/

section Counters

variable {State : Type} {server : Server (Visit State)}

theorem bump_comm (server : Server (Visit State)) (k k' : Option Nat) :
    bump (bump server k) k' = bump (bump server k') k := by
  cases k with
  | none => rfl
  | some k =>
    cases k' with
    | none => rfl
    | some k' =>
      by_cases hk : k = k'
      · rw [hk]
      · have hcomm := List.modify_modify_ne HandlerData.count HandlerData.count server.handlers hk
        exact congrArg Server.mk hcomm

end Counters

/-- What an activity does to its connection does not depend on the counters of the server, and what
it does to them does not depend on what they count. -/
theorem run_bump {server server' : Server (Visit E.parser.State)} {p : Peer E.parser.State}
    {a : Activity} {ran : Ran E.parser.State}
    (hs : Registered (react E T.transport.async) patterns server)
    (hs' : Registered (react E T.transport.async) patterns server')
    (h : a.run T server p = some ran) : ∃ k, ran.server = bump server k ∧
      a.run T server' p = some { ran with server := bump server' k } := by
  cases a with
  | read e bytes r =>
    obtain ⟨hready, h⟩ := Option.ite_none_right_eq_some.mp h
    obtain rfl := Option.some.inj h
    simp only [Activity.run, if_pos hready]
    cases hpres : T.presented e bytes { p.session with reads := p.session.reads - 1 } with
    | none =>
      rw [handleRead_of_not_presented T hpres, handleRead_of_not_presented T hpres]
      exact ⟨none, rfl, rfl⟩
    | some c =>
      rw [handleRead_of_presented T hs hpres r rfl, handleRead_of_presented T hs' hpres r rfl]
      exact ⟨_, rfl, rfl⟩
  | complete ev =>
    obtain ⟨hev, h⟩ := Option.ite_none_right_eq_some.mp h
    obtain ⟨s, hss, rfl⟩ := Option.map_eq_some_iff.mp h
    refine ⟨none, rfl, ?_⟩
    simp only [Activity.run, if_pos hev, hss]
    rfl
  | handler op =>
    obtain ⟨hh, h⟩ := Option.ite_none_right_eq_some.mp h
    obtain ⟨s, hss, rfl⟩ := Option.map_eq_some_iff.mp h
    refine ⟨none, rfl, ?_⟩
    simp only [Activity.run, if_pos hh, hss]
    rfl
  | copy =>
    obtain ⟨hh, h⟩ := Option.ite_none_right_eq_some.mp h
    obtain rfl := Option.some.inj h
    exact ⟨none, rfl, if_pos hh⟩
  | release =>
    obtain ⟨hh, h⟩ := Option.ite_none_right_eq_some.mp h
    obtain rfl := Option.some.inj h
    exact ⟨none, rfl, if_pos hh⟩
  | shutdown =>
    obtain ⟨hh, h⟩ := Option.ite_none_right_eq_some.mp h
    obtain rfl := Option.some.inj h
    exact ⟨none, rfl, if_pos hh⟩

/-! ## Neighbours -/

section Steps

variable {s t u : System E.parser.State} {n i j : Nat} {a b : Activity} {e : ErrorCode}
variable {junk : Uninitialised}

theorem step_connection_iff : System.step T s (.connection i a) = some t ↔ s.stopped = none ∧
    ∃ p ran, s.connections[i]? = some (.alive p) ∧ a.run T s.server p = some ran ∧
      t = s.finish i ran := by
  constructor
  · intro h
    obtain ⟨hs, hstep⟩ := Option.ite_none_left_eq_some.mp h
    obtain ⟨p, hp, hmap⟩ := Option.bind_eq_some_iff.mp hstep
    obtain ⟨ran, hran, rfl⟩ := Option.map_eq_some_iff.mp hmap
    exact ⟨by simpa using hs, p, ran, System.peer_eq_some.mp hp, hran, rfl⟩
  · intro h
    obtain ⟨hs, p, ran, hp, hran, rfl⟩ := h
    simp only [System.step, hs, System.peer_eq_some.mpr hp, Option.isSome_none, Option.bind_some,
      hran, Option.map_some, Bool.false_eq_true, if_false]

theorem step_accept_iff : System.step T s (.accept n e junk) = some t ↔ s.stopped = none ∧
    s.accepting = true ∧ n = s.connections.length ∧ t = System.handleAccept T s e junk := by
  constructor
  · intro h
    obtain ⟨hs, hstep⟩ := Option.ite_none_left_eq_some.mp h
    obtain ⟨⟨ha, hn⟩, ht⟩ := Option.ite_none_right_eq_some.mp hstep
    exact ⟨by simpa using hs, ha, hn, (Option.some.inj ht).symm⟩
  · intro h
    obtain ⟨hs, ha, hn, rfl⟩ := h
    simp only [System.step, hs, ha, hn, Option.isSome_none, and_self, if_true, Bool.false_eq_true,
      if_false]

/-- What `handle_accept` adds to the list of the connections. -/
def added (T : Scheme E) (s : System E.parser.State) (e : ErrorCode) : List (Slot E.parser.State) :=
  match e with
  | .success => [.alive ⟨T.started s.acceptor.newConnection, 0, 0⟩]
  | .operationAborted | .failure => []

theorem connections_handleAccept (e : ErrorCode) :
    (System.handleAccept T s e junk).connections = s.connections ++ added T s e := by
  cases e with
  | success => rfl
  | operationAborted | failure => exact (List.append_nil _).symm

/-- An accept and a step of a connection that has been there before leave each other alone. -/
theorem handleAccept_finish (hi : i < s.connections.length) (ran : Ran E.parser.State)
    (e : ErrorCode) (junk : Uninitialised) :
    System.handleAccept T (s.finish i ran) e junk = (System.handleAccept T s e junk).finish i ran := by
  have hset : ∀ x, s.connections.set i (.settle ran.peer) ++ [x] =
      (s.connections ++ [x]).set i (.settle ran.peer) :=
    fun x => (List.set_append_left _ _ hi).symm
  cases e with
  | success =>
    refine (System.mk.injEq ..).mpr ⟨rfl, rfl, rfl, hset _, ?_, rfl⟩
    change (if ran.peer.owners = 0 then s.contextCount - 1 else s.contextCount) + 1 =
      if ran.peer.owners = 0 then s.contextCount + 1 - 1 else s.contextCount + 1
    split
    · rw [UInt64.sub_add_cancel, UInt64.add_sub_cancel]
    · rfl
  | operationAborted | failure => rfl

theorem finish_finish {ra rb : Ran E.parser.State} (hij : i ≠ j) {k k' : Option Nat}
    (hb : rb.server = bump (bump s.server k) k')
    (hstop : ra.stop = rb.stop) : (s.finish i ra).finish j rb =
      (s.finish j { rb with server := bump s.server k' }).finish i
        { ra with server := bump (bump s.server k') k } := by
  have hserver : rb.server = bump (bump s.server k') k := by
    rw [hb, bump_comm]
  refine (System.mk.injEq ..).mpr
    ⟨hserver, rfl, rfl, List.set_comm _ _ hij, ?_, hstop.symm⟩
  change (if rb.peer.owners = 0 then (if ra.peer.owners = 0 then s.contextCount - 1 else
      s.contextCount) - 1 else if ra.peer.owners = 0 then s.contextCount - 1 else s.contextCount) =
    if ra.peer.owners = 0 then (if rb.peer.owners = 0 then s.contextCount - 1 else
      s.contextCount) - 1 else if rb.peer.owners = 0 then s.contextCount - 1 else s.contextCount
  by_cases h : rb.peer.owners = 0
  · by_cases h' : ra.peer.owners = 0 <;> simp only [h, h', if_true, if_false]
  · by_cases h' : ra.peer.owners = 0 <;> simp only [h, h', if_true, if_false]

theorem swap_accept_connection (hin : i ≠ n)
    (ha : System.step T s (.accept n e junk) = some t)
    (hb : System.step T t (.connection i b) = some u) : ∃ t',
      System.step T s (.connection i b) = some t' ∧ (u.stopped = none →
        System.step T t' (.accept n e junk) = some u) := by
  obtain ⟨hs, hacc, rfl, rfl⟩ := step_accept_iff.mp ha
  obtain ⟨-, p, ran, hp, hran, rfl⟩ := step_connection_iff.mp hb
  have hi : i < s.connections.length := by
    have hlt := (List.getElem?_eq_some_iff.mp hp).1
    rw [connections_handleAccept, List.length_append] at hlt
    have hone : (added T s e).length ≤ 1 := by
      cases e with
      | success => exact Nat.le_refl _
      | operationAborted | failure => exact Nat.zero_le _
    omega
  have hserver : (System.handleAccept T s e junk).server = s.server := by
    cases e with
    | success | operationAborted | failure => rfl
  rw [connections_handleAccept, List.getElem?_append_left hi] at hp
  rw [hserver] at hran
  refine ⟨s.finish i ran, step_connection_iff.mpr ⟨hs, p, ran, hp, hran, rfl⟩, fun hrun => ?_⟩
  refine step_accept_iff.mpr ⟨hrun, hacc, ?_, (handleAccept_finish hi ran e junk).symm⟩
  exact (List.length_set ..).symm

theorem swap_connection_accept
    (ha : System.step T s (.connection i a) = some t)
    (hb : System.step T t (.accept n e junk) = some u) : ∃ t',
      System.step T s (.accept n e junk) = some t' ∧
        System.step T t' (.connection i a) = some u := by
  obtain ⟨hs, p, ran, hp, hran, rfl⟩ := step_connection_iff.mp ha
  obtain ⟨-, hacc, hn, rfl⟩ := step_accept_iff.mp hb
  obtain ⟨hi, -⟩ := List.getElem?_eq_some_iff.mp hp
  have hn : n = s.connections.length := hn.trans (List.length_set ..)
  have hserver : (System.handleAccept T s e junk).server = s.server := by
    cases e with
    | success | operationAborted | failure => rfl
  have hstopped : (System.handleAccept T s e junk).stopped = s.stopped := by
    cases e with
    | success | operationAborted | failure => rfl
  refine ⟨_, step_accept_iff.mpr ⟨hs, hacc, hn, rfl⟩, step_connection_iff.mpr
    ⟨hstopped.trans hs, p, ran, ?_, ?_, handleAccept_finish hi ran e junk⟩⟩
  · rwa [connections_handleAccept, List.getElem?_append_left hi]
  · rwa [hserver]

theorem swap_connections (hs : Registered (react E T.transport.async) patterns s.server)
    (hij : i ≠ j) (ha : System.step T s (.connection i a) = some t)
    (hb : System.step T t (.connection j b) = some u) (hu : u.stopped = none) : ∃ t',
      System.step T s (.connection j b) = some t' ∧
        System.step T t' (.connection i a) = some u := by
  obtain ⟨hrun, p, ra, hp, hra, rfl⟩ := step_connection_iff.mp ha
  obtain ⟨hgo, q, rb, hq, hrb, rfl⟩ := step_connection_iff.mp hb
  rw [getElem?_finish hp, if_neg hij] at hq
  have hs' : Registered (react E T.transport.async) patterns ra.server :=
    (acted_of_run T hra).registered hs
  obtain ⟨k', hk', hrb'⟩ := run_bump hs' hs hrb
  have hs'' : Registered (react E T.transport.async) patterns (bump s.server k') := hs.bump k'
  obtain ⟨k, hk, hra'⟩ := run_bump hs hs'' hra
  refine ⟨s.finish j { rb with server := bump s.server k' },
    step_connection_iff.mpr ⟨hrun, q, _, hq, hrb', rfl⟩, step_connection_iff.mpr
      ⟨hu, p, _, ?_, hra', ?_⟩⟩
  · rwa [getElem?_finish hq, if_neg (Ne.symm hij)]
  · exact finish_finish hij (hk ▸ hk') (hgo.trans hu.symm)

theorem swaps (T : Scheme E) (patterns : List Bytes) : Swaps (System.step T) Event.seen
    (fun s => Registered (react E T.transport.async) patterns s.server)
    (fun s => s.stopped = none) where
  placed ev := by
    cases ev with
    | accept n e junk => exact ⟨none, rfl⟩
    | connection i a => exact ⟨some i, beq_self_eq_true i⟩
  kept s ev t hI hs := by
    obtain ⟨-, hstep⟩ := System.stepped_of_step T hs
    cases hstep with
    | accepted junk ha => exact hI
    | deaf e junk he ha => exact hI
    | connection i a p ran hp ha => exact ha.registered hI
  back s ev t hs _ := (System.stepped_of_step T hs).1
  swap s ev t ev' u hI hapart hs ht hu := by
    cases ev with
    | accept n e junk =>
      cases ev' with
      | accept m e' junk' => cases hapart none rfl
      | connection i b =>
        have hin : i ≠ n := by
          intro h
          have hseen := hapart (some n) (beq_self_eq_true n)
          rw [h] at hseen
          exact absurd (beq_self_eq_true n) (ne_true_of_eq_false hseen)
        obtain ⟨t', ht', hu'⟩ := swap_accept_connection hin hs ht
        exact ⟨t', ht', hu' hu⟩
    | connection i a =>
      have hf := hapart (some i) (beq_self_eq_true i)
      cases ev' with
      | accept m e junk =>
        exact swap_connection_accept hs ht
      | connection j b =>
        have hij : i ≠ j := by
          intro h
          rw [h] at hf
          exact absurd (beq_self_eq_true j) (ne_true_of_eq_false hf)
        exact swap_connections hI hij hs ht hu

/-- Two schedules that let the acceptor and each connection see the same events in the same order
lead to the same state: the connections with all they have sent, and the counters. -/
theorem schedules_agree (T : Scheme E) (tag : Bytes) (junk : Uninitialised)
    (regs : List (Bytes × UInt64)) {es fs : List Event} {u : System E.parser.State}
    (h : runs (System.step T) (System.start T tag junk regs) es = some u) (hrun : u.stopped = none)
    (hv : ∀ l, es.filter (fun ev => ev.seen l) = fs.filter (fun ev => ev.seen l)) :
    runs (System.step T) (System.start T tag junk regs) fs = some u :=
  runs_of_sameViews (swaps T (regs.map Prod.fst)) (registered_registerAll _ regs) hv h hrun

/-- The requests of the two clients, taken the other way round. -/
def turnedGets : List Event :=
  [.accept 0 .success .zero,
    .connection 0 (.read .success (getBytes (ascii "/")) ⟨[.waitForAsyncReply], 1, false⟩),
    .accept 1 .success .zero,
    .connection 1 (.read .success (getBytes (ascii "/"))
      ⟨[.create .ok Reply.textHtml 0], 0, false⟩),
    .connection 1 (.complete (.write 0 .success))]

theorem schedules_agree_turnedGets : ∃ u,
    runs (System.step (http getServer)) (System.start (http getServer) [] .zero [(ascii "/", 0)])
      twoGets = some u ∧
    runs (System.step (http getServer)) (System.start (http getServer) [] .zero [(ascii "/", 0)])
      turnedGets = some u := by
  have hrun : ∃ u, runs (System.step (http getServer))
      (System.start (http getServer) [] .zero [(ascii "/", 0)]) twoGets = some u ∧
        u.stopped = none := ⟨_, rfl, rfl⟩
  obtain ⟨u, hu, hgo⟩ := hrun
  refine ⟨u, hu, schedules_agree (http getServer) [] .zero _ hu hgo fun l => ?_⟩
  cases l with
  | none => rfl
  | some i =>
    match i with
    | 0 => rfl
    | 1 => rfl
    | n + 2 => simp [twoGets, turnedGets, Event.seen]

end Steps

end CsiHttp.Service
