import CsiHttp.Service.Dispatching
import Mathlib.Algebra.BigOperators.Group.Finset.Basic
import Mathlib.Algebra.Order.BigOperators.Group.Finset

/-!
# How long connection objects live

An operation that is under way keeps its connection alive, and so does a handler that has kept the
`shared_ptr`. Nothing else does. A connection that its client has left, and that no handler uses
again, is therefore destroyed after finitely many completions, as the comment at the end of
`https_connection::handle_read` says; and when all of them are left, `s_context_count` comes down
to the one connection that waits to be accepted. Exceptions of `remote_endpoint()` are not
modelled.
-/
namespace CsiHttp.Service

open Lib Lib.Text Lib.Runs Server

variable {E : Externals} {T : Scheme E}

/-! ## The number of connection objects -/

theorem isAlive_settle {State : Type} (p : Peer State) :
    (Slot.settle p).isAlive = decide (p.owners ≠ 0) := by
  unfold Slot.settle
  by_cases h : p.owners = 0
  · simp [h, Slot.isAlive]
  · simp [h, Slot.isAlive]

theorem owners_of_settle {State : Type} {p q : Peer State} (h : Slot.settle p = .alive q) :
    p = q ∧ 0 < q.owners := by
  unfold Slot.settle at h
  by_cases h0 : p.owners = 0
  · rw [if_pos h0] at h
    cases h
  · rw [if_neg h0] at h
    obtain rfl := Slot.alive.inj h
    exact ⟨rfl, Nat.pos_of_ne_zero h0⟩

/-- What every step keeps: objects that nothing refers to are gone, and the others are counted. -/
structure Tally {State : Type} (s : System State) : Prop where
  owned : ∀ p, .alive p ∈ s.connections → 0 < p.owners
  counted : s.contextCount = 1 + UInt64.ofNat (s.connections.countP Slot.isAlive)

theorem owners_started (c : Connection E.parser.State) : 0 < Peer.owners ⟨T.started c, 0, 0⟩ := by
  have hopens := T.opens c
  unfold Peer.owners
  dsimp only
  omega

theorem tally_finish {s : System E.parser.State} {i : Nat} {p : Peer E.parser.State}
    {ran : Ran E.parser.State} (h : Tally s) (hp : s.connections[i]? = some (.alive p)) :
    Tally (s.finish i ran) := by
  obtain ⟨hi, hget⟩ := List.getElem?_eq_some_iff.mp hp
  refine ⟨fun q hq => ?_, ?_⟩
  · rcases List.mem_or_eq_of_mem_set hq with hold | hnew
    · exact h.owned q hold
    · exact (owners_of_settle hnew.symm).2
  · have hpos : 0 < s.connections.countP Slot.isAlive :=
      List.countP_pos_iff.mpr ⟨_, List.mem_of_getElem? hp, rfl⟩
    have hset := List.countP_set (p := Slot.isAlive) (a := Slot.settle ran.peer) hi
    rw [hget, isAlive_settle] at hset
    obtain ⟨n, hn⟩ := Nat.exists_eq_succ_of_ne_zero (Nat.pos_iff_ne_zero.mp hpos)
    have hcount := h.counted
    rw [hn, Nat.succ_eq_add_one, UInt64.ofNat_add, ← UInt64.add_assoc] at hcount
    change (if ran.peer.owners = 0 then s.contextCount - 1 else s.contextCount) =
      1 + UInt64.ofNat ((s.connections.set i _).countP Slot.isAlive)
    rw [hset, hn]
    by_cases h0 : ran.peer.owners = 0
    · simp only [h0, if_true, Slot.isAlive]
      rw [hcount]
      exact UInt64.add_sub_cancel _ _
    · simp only [h0, ne_eq, not_false_eq_true, decide_true, if_false, if_true, Slot.isAlive]
      rw [hcount, UInt64.add_assoc, ← UInt64.ofNat_add]
      rfl

theorem tally_step {s t : System E.parser.State} {ev : Event} (h : Tally s)
    (hs : System.step T s ev = some t) : Tally t := by
  obtain ⟨-, hstep⟩ := System.stepped_of_step T hs
  cases hstep with
  | deaf e junk he ha => exact ⟨h.owned, h.counted⟩
  | accepted junk ha =>
    refine ⟨fun p hp => ?_, ?_⟩
    · rcases List.mem_append.mp hp with hold | hnew
      · exact h.owned p hold
      · obtain rfl := Slot.alive.inj (List.mem_singleton.mp hnew)
        exact owners_started _
    · change s.contextCount + 1 = 1 + UInt64.ofNat ((s.connections ++ [_]).countP Slot.isAlive)
      rw [List.countP_append, UInt64.ofNat_add, ← UInt64.add_assoc, ← h.counted]
      rfl
  | connection i a p ran hp ha => exact tally_finish h hp

theorem tally_runs {tag : Bytes} {junk : Uninitialised} {regs : List (Bytes × UInt64)}
    {es : List Event} {u : System E.parser.State}
    (h : runs (System.step T) (System.start T tag junk regs) es = some u) : Tally u :=
  invariant (D := fun _ _ => True) (fun _ _ _ h _ hs => tally_step h hs)
    ⟨fun _ hp => absurd hp List.not_mem_nil, rfl⟩ (along_of_forall (fun _ _ => trivial) _ _) h

/-! ## Connections without a client -/

/-- A bound for what can still happen to a connection without a client. -/
def Peer.weight {State : Type} (p : Peer State) : Nat := p.session.load + p.handles + p.shutdowns

/-- What happens to a connection whose client has gone and whose handlers want nothing more of it
than to be rid of it. -/
def Activity.Winding : Activity → Prop
  | .read e _ _ => e ≠ .success
  | .complete (.write _ e) => e ≠ .success
  | .complete (.handshake e) => e ≠ .success
  | .complete _ => True
  | .handler _ | .copy => False
  | .release | .shutdown => True

instance : (a : Activity) → Decidable a.Winding
  | .read e _ _ => inferInstanceAs (Decidable (e ≠ .success))
  | .complete (.write _ e) => inferInstanceAs (Decidable (e ≠ .success))
  | .complete (.handshake e) => inferInstanceAs (Decidable (e ≠ .success))
  | .complete (.read _ _ _) | .complete .expire | .complete (.timer _) | .complete .asyncReplyDone
  | .complete (.handler _) => isTrue trivial
  | .handler _ | .copy => isFalse id
  | .release | .shutdown => isTrue trivial

/-- A completion that the client has no part in uses up more than it starts. -/
theorem load_completed {s t : Session E.parser.State} {ev : Server.Event}
    (hev : isCompletion ev = true) (hw : (Activity.complete ev).Winding)
    (hs : s.step E T.transport ev = some t) : t.load + startedShutdowns T s ev < s.load := by
  obtain ⟨-, hstep⟩ := Session.stepped_of_step hs
  cases hstep with
  | read e bytes ops hr hb => cases hev
  | handler op hl => cases hev
  | handshake e hh =>
    have hle := T.winds.handshake e { s with handshakes := s.handshakes - 1 } hw
    have hlt : ({ s with handshakes := s.handshakes - 1 } : Session E.parser.State).load < s.load := by
      unfold Session.load
      dsimp only
      omega
    exact Nat.lt_of_le_of_lt hle hlt
  | write i e hi =>
    have hle := T.winds.write e { s with writes := s.writes.eraseIdx i } hw
    have hlt : ({ s with writes := s.writes.eraseIdx i } : Session E.parser.State).load < s.load := by
      unfold Session.load
      dsimp only
      rw [List.length_eraseIdx_of_lt hi]
      omega
    exact Nat.lt_of_le_of_lt hle hlt
  | expire hp => exact Session.load_expire hp
  | timer i c timer hd =>
    have hle := T.winds.wait c.wait c.code { s with timer := timer }
    have hlt := Session.load_dequeue hd
    have hshut : startedShutdowns T s (.timer i) = T.shutdowns c.code := by
      simp only [startedShutdowns, hd]
    rw [hshut]
    omega
  | asyncReplyDone hp =>
    have hle := T.winds.asyncReplyDone { s with posted := s.posted - 1 }
    have hlt : ({ s with posted := s.posted - 1 } : Session E.parser.State).load + 2 = s.load := by
      unfold Session.load
      dsimp only
      omega
    change _ + 0 < _
    omega

theorem Acted.weight {server : Server (Visit E.parser.State)} {p : Peer E.parser.State}
    {a : Activity} {ran : Ran E.parser.State} (ha : Acted T server p a ran) (hw : a.Winding) :
    ran.peer.weight < p.weight := by
  cases ha with
  | read e bytes r hr hb =>
    rw [handleRead_of_not_presented T (presented_of_failed T hw _ _)]
    have hle := T.winds.read e bytes [] { p.session with reads := p.session.reads - 1 } hw
    have hlt : ({ p.session with reads := p.session.reads - 1 } : Session E.parser.State).load <
        p.session.load := by
      unfold Session.load
      dsimp only
      omega
    have hsession := Nat.lt_of_le_of_lt hle hlt
    exact Nat.add_lt_add_right (Nat.add_lt_add_right hsession _) _
  | complete ev s hev hs =>
    have hlt := load_completed hev hw hs
    unfold Peer.weight
    dsimp only
    omega
  | handler op s hh hs => exact absurd hw id
  | copy hh => exact absurd hw id
  | release hh =>
    unfold Peer.weight
    dsimp only
    omega
  | shutdown hh =>
    unfold Peer.weight
    dsimp only
    omega

/-- As long as something owns a connection something can happen to it. -/
theorem exists_winding (T : Scheme E) (server : Server (Visit E.parser.State))
    {p : Peer E.parser.State} (hf : p.session.fault = none) (ho : 0 < p.owners) :
    ∃ a : Activity, a.Winding ∧ (a.run T server p).isSome := by
  unfold Peer.owners at ho
  by_cases hr : 0 < p.session.reads
  · refine ⟨.read .failure [] ⟨[], 0, false⟩, ErrorCode.noConfusion, ?_⟩
    simp [Activity.run, fillsBuffer, hr]
  by_cases hw : 0 < p.session.writes.length
  · refine ⟨.complete (.write 0 .failure), ErrorCode.noConfusion, ?_⟩
    simp [Activity.run, isCompletion, Session.step, hf, hw]
  by_cases hp : 0 < p.session.posted
  · refine ⟨.complete .asyncReplyDone, trivial, ?_⟩
    simp [Activity.run, isCompletion, Session.step, hf, hp]
  by_cases hh : 0 < p.session.handshakes
  · refine ⟨.complete (.handshake .failure), ErrorCode.noConfusion, ?_⟩
    simp [Activity.run, isCompletion, Session.step, hf, hh]
  by_cases hpend : p.session.timer.pending = []
  · by_cases hq : 0 < p.session.timer.queued.length
    · refine ⟨.complete (.timer 0), trivial, ?_⟩
      simp [Activity.run, isCompletion, Session.step, DeadlineTimer.dequeue, hf, hq]
    by_cases hhandles : 0 < p.handles
    · refine ⟨.release, trivial, ?_⟩
      simp [Activity.run, hhandles]
    · rw [hpend, List.length_nil] at ho
      have hs : 0 < p.shutdowns := by omega
      refine ⟨.shutdown, trivial, ?_⟩
      simp [Activity.run, hs]
  · refine ⟨.complete .expire, trivial, ?_⟩
    simp [Activity.run, isCompletion, Session.step, hf, hpend]

/-- A bound for what can still happen to connection `i`. -/
def System.weight {State : Type} (s : System State) (i : Nat) : Nat := (s.peer i).elim 0 Peer.weight

theorem weight_of_peer {State : Type} {s : System State} {i : Nat} {p : Peer State}
    (h : s.peer i = some p) : s.weight i = p.weight := by
  unfold System.weight
  rw [h]
  rfl

theorem weight_congr {State : Type} {s t : System State} {i : Nat}
    (h : t.connections[i]? = s.connections[i]?) : t.weight i = s.weight i := by
  unfold System.weight System.peer
  rw [h]

/-- What happens to a connection without a client makes it lighter; all else leaves it alone. -/
theorem weight_step {s t : System E.parser.State} {ev : Event} {i : Nat}
    (hi : i < s.connections.length) (hw : ∀ a ∈ activities i [ev], a.Winding)
    (hs : System.step T s ev = some t) :
    i < t.connections.length ∧ (activities i [ev]).length + t.weight i ≤ s.weight i := by
  obtain ⟨-, hstep⟩ := System.stepped_of_step T hs
  cases hstep with
  | deaf e junk he ha => exact ⟨hi, Nat.le_of_eq (Nat.zero_add _)⟩
  | accepted junk ha =>
    refine ⟨?_, Nat.le_of_eq ((Nat.zero_add _).trans ?_)⟩
    · rw [List.length_append]
      exact Nat.lt_add_right _ hi
    · exact weight_congr (List.getElem?_append_left hi)
  | connection j a p ran hp ha =>
    refine ⟨?_, ?_⟩
    · change i < (s.connections.set j _).length
      rwa [List.length_set]
    · by_cases hji : j = i
      · subst hji
        rw [activities_self] at hw ⊢
        have hlt := ha.weight (hw a (List.mem_singleton.mpr rfl))
        have hold := weight_of_peer (System.peer_eq_some.mpr hp)
        have hnew : (s.finish j ran).weight j ≤ ran.peer.weight := by
          have hget : (s.finish j ran).connections[j]? = some (Slot.settle ran.peer) := by
            rw [getElem?_finish hp, if_pos rfl]
          unfold System.weight System.peer
          rw [hget]
          unfold Slot.settle
          split
          · exact Nat.zero_le _
          · exact Nat.le_refl _
        rw [List.length_singleton]
        omega
      · rw [activities_ne hji]
        have hget : (s.finish j ran).connections[i]? = s.connections[i]? := by
          rw [getElem?_finish hp, if_neg hji]
        exact Nat.le_of_eq ((Nat.zero_add _).trans (weight_congr hget))

theorem activities_cons (i : Nat) (ev : Event) (es : List Event) :
    activities i (ev :: es) = activities i [ev] ++ activities i es := by
  rw [← List.singleton_append]
  exact List.filterMap_append

theorem length_activities (i : Nat) (es : List Event) :
    (activities i es).length = (es.map (fun ev => (activities i [ev]).length)).sum := by
  induction es with
  | nil => rfl
  | cons ev es ih =>
    rw [List.map_cons, List.sum_cons, ← ih, ← List.length_append, activities_cons]

theorem along_activities {step : System E.parser.State → Event → Option (System E.parser.State)}
    {D : Activity → Prop} {i : Nat} {es : List Event} (s : System E.parser.State)
    (h : ∀ a ∈ activities i es, D a) :
    Along step (fun _ ev => ∀ a ∈ activities i [ev], D a) s es := by
  refine along_of_mem (C := fun ev => ∀ a ∈ activities i [ev], D a) (fun ev hev a ha => h a ?_) s
  obtain ⟨ev', hmem, hsome⟩ := List.mem_filterMap.mp ha
  obtain rfl := List.mem_singleton.mp hmem
  exact List.mem_filterMap.mpr ⟨ev', hev, hsome⟩

theorem length_activities_le {i : Nat} {fs : List Event} {s u : System E.parser.State}
    {p : Peer E.parser.State} (hp : s.peer i = some p) (hw : ∀ a ∈ activities i fs, a.Winding)
    (hu : runs (System.step T) s fs = some u) : (activities i fs).length ≤ p.weight := by
  obtain ⟨hi, -⟩ := List.getElem?_eq_some_iff.mp (System.peer_eq_some.mp hp)
  have hbound := bounded (I := fun s => i < s.connections.length)
    (D := fun _ ev => ∀ a ∈ activities i [ev], a.Winding) (μ := fun s => s.weight i)
    (c := fun ev => (activities i [ev]).length)
    (fun _ _ _ hi hw hs => weight_step hi hw hs) hi (along_activities s hw) hu
  rw [← length_activities, weight_of_peer hp] at hbound
  exact Nat.le_trans (Nat.le_add_right _ _) hbound

/-- A connection object that exists can take a step without its client. -/
theorem exists_step {tag : Bytes} {junk : Uninitialised} {regs : List (Bytes × UInt64)}
    {es : List Event} {u : System E.parser.State}
    (h : runs (System.step T) (System.start T tag junk regs) es = some u) (hrun : u.stopped = none)
    {i : Nat} {q : Peer E.parser.State} (hq : u.peer i = some q) :
    ∃ a : Activity, a.Winding ∧ (System.step T u (.connection i a)).isSome := by
  have hslot := System.peer_eq_some.mp hq
  have hf := (apart_runs T tag junk regs h).unfaulted hrun i _ hslot
  have ho := (tally_runs h).owned q (List.mem_of_getElem? hslot)
  obtain ⟨a, ha, hsome⟩ := exists_winding T u.server hf ho
  refine ⟨a, ha, ?_⟩
  simpa [System.step, hrun, hq] using hsome

/-- A connection whose client has gone and which no handler uses or copies any more takes only so
many more steps, whatever the rest of the system does meanwhile, and can take one as long as it
is there. So it is destroyed. An exception of `remote_endpoint()`, which the model leaves out,
could end the program before. -/
theorem connections_drain (T : Scheme E) (tag : Bytes) (junk : Uninitialised)
    (regs : List (Bytes × UInt64)) {es fs : List Event} {s u : System E.parser.State}
    (hs : runs (System.step T) (System.start T tag junk regs) es = some s) {i : Nat}
    {p : Peer E.parser.State} (hp : s.peer i = some p) (hw : ∀ a ∈ activities i fs, a.Winding)
    (hu : runs (System.step T) s fs = some u) :
    (activities i fs).length ≤ p.weight ∧
      (u.stopped = none → ∀ q, u.peer i = some q →
        ∃ a : Activity, a.Winding ∧ (System.step T u (.connection i a)).isSome) :=
  ⟨length_activities_le hp hw hu, fun hrun _ hq =>
    exists_step (runs_append_iff.mpr ⟨s, hs, hu⟩) hrun hq⟩

/-- The second client leaves, while a handler goes on with the connection of the first. -/
def clientLeaves : List Event :=
  [.connection 1 (.read .failure [] ⟨[], 0, false⟩), .connection 0 .copy,
    .connection 1 (.complete (.timer 0))]

theorem connections_drain_clientLeaves : ∃ s p u,
    runs (System.step (http getServer)) (System.start (http getServer) [] .zero [(ascii "/", 0)])
      twoGets = some s ∧ s.peer 1 = some p ∧
        runs (System.step (http getServer)) s clientLeaves = some u ∧
          (activities 1 clientLeaves).length ≤ p.weight ∧
            (u.stopped = none → ∀ q, u.peer 1 = some q → ∃ a : Activity, a.Winding ∧
              (System.step (http getServer) u (.connection 1 a)).isSome) := by
  have hrun : ∃ s p u, runs (System.step (http getServer))
      (System.start (http getServer) [] .zero [(ascii "/", 0)]) twoGets = some s ∧
        s.peer 1 = some p ∧ runs (System.step (http getServer)) s clientLeaves = some u :=
    ⟨_, _, _, rfl, rfl, rfl⟩
  obtain ⟨s, p, u, hs, hp, hu⟩ := hrun
  exact ⟨s, p, u, hs, hp, hu,
    connections_drain (http getServer) [] .zero _ hs hp (by decide +kernel) hu⟩

/-! ## A server that all clients have left -/

/-- Nobody connects any more, and what happens to the connections is winding. -/
def Event.Winding : Event → Prop
  | .accept _ _ _ => False
  | .connection _ a => a.Winding

instance : (ev : Event) → Decidable ev.Winding
  | .accept _ _ _ => isFalse id
  | .connection _ a => inferInstanceAs (Decidable a.Winding)

/-- A bound for what can still happen to all connections. -/
def System.totalWeight {State : Type} (s : System State) : Nat :=
  ∑ i ∈ Finset.range s.connections.length, s.weight i

theorem totalWeight_step {s t : System E.parser.State} {ev : Event} (hw : ev.Winding)
    (hs : System.step T s ev = some t) : 1 + t.totalWeight ≤ s.totalWeight := by
  cases ev with
  | accept n e junk => exact hw.elim
  | connection j a =>
    obtain ⟨-, hstep⟩ := System.stepped_of_step T hs
    have hsteps : ∀ i ∈ Finset.range s.connections.length,
        (activities i [.connection j a]).length + t.weight i ≤ s.weight i := by
      intro i hi
      refine (weight_step (Finset.mem_range.mp hi) (fun b hb => ?_) hs).2
      by_cases hji : j = i
      · subst hji
        rw [activities_self, List.mem_singleton] at hb
        exact hb ▸ hw
      · rw [activities_ne hji] at hb
        exact absurd hb List.not_mem_nil
    cases hstep with
    | connection _ _ p ran hp ha =>
      have hj : j ∈ Finset.range s.connections.length :=
        Finset.mem_range.mpr (List.getElem?_eq_some_iff.mp hp).1
      have hone : ∑ i ∈ Finset.range s.connections.length,
          (activities i [.connection j a]).length = 1 := by
        rw [Finset.sum_eq_single_of_mem j hj, activities_self, List.length_singleton]
        intro i _ hij
        rw [activities_ne (Ne.symm hij), List.length_nil]
      have hlen : (s.finish j ran).connections.length = s.connections.length := List.length_set
      have hsum := Finset.sum_le_sum hsteps
      rw [Finset.sum_add_distrib, hone] at hsum
      unfold System.totalWeight
      rwa [hlen]

/-- When nobody connects any more and every connection winds up, only so many more steps are
possible, and when there is none left all connection objects are destroyed and `s_context_count`
is down to the one that waits to be accepted. -/
theorem contextCount_drained (T : Scheme E) (tag : Bytes) (junk : Uninitialised)
    (regs : List (Bytes × UInt64)) {es fs : List Event} {s u : System E.parser.State}
    (hs : runs (System.step T) (System.start T tag junk regs) es = some s)
    (hw : ∀ ev ∈ fs, ev.Winding) (hu : runs (System.step T) s fs = some u) :
    fs.length ≤ s.totalWeight ∧
      (u.stopped = none → (∀ ev : Event, ev.Winding → System.step T u ev = none) →
        (∀ i, u.peer i = none) ∧ u.contextCount = 1) := by
  have hall := runs_append_iff.mpr ⟨s, hs, hu⟩
  constructor
  · have hbound := bounded (I := fun _ => True) (D := fun _ ev => ev.Winding)
      (μ := System.totalWeight) (c := fun _ => 1)
      (fun _ _ _ _ hw hs => ⟨trivial, totalWeight_step hw hs⟩) trivial
      (along_of_mem hw s) hu
    rw [List.map_const', List.sum_replicate, Nat.nsmul_eq_mul, Nat.mul_one] at hbound
    exact Nat.le_trans (Nat.le_add_right _ _) hbound
  · intro hrun hend
    have hgone : ∀ i, u.peer i = none := by
      intro i
      by_contra hq
      obtain ⟨q, hq⟩ := Option.ne_none_iff_exists'.mp hq
      obtain ⟨a, ha, hsome⟩ := exists_step hall hrun hq
      rw [hend (.connection i a) ha] at hsome
      cases hsome
    refine ⟨hgone, ?_⟩
    have hnone : u.connections.countP Slot.isAlive = 0 := by
      rw [List.countP_eq_zero]
      intro x hx
      obtain ⟨i, hi⟩ := List.mem_iff_getElem?.mp hx
      cases x with
      | alive q => exact absurd (System.peer_eq_some.mpr hi) (by rw [hgone i]; exact nofun)
      | destroyed last => exact Bool.false_ne_true
    rw [(tally_runs hall).counted, hnone]
    rfl

/-- Both clients leave, and the handler gives up the connection that it has kept. -/
def everyoneLeaves : List Event :=
  [.connection 1 (.read .failure [] ⟨[], 0, false⟩), .connection 0 .release,
    .connection 1 (.complete (.timer 0)), .connection 0 (.complete (.timer 0)),
    .connection 0 (.complete .expire), .connection 0 (.complete (.timer 0))]

theorem contextCount_drained_everyoneLeaves : ∃ s u,
    runs (System.step (http getServer)) (System.start (http getServer) [] .zero [(ascii "/", 0)])
      twoGets = some s ∧ s.contextCount = 3 ∧
        runs (System.step (http getServer)) s everyoneLeaves = some u ∧
          everyoneLeaves.length ≤ s.totalWeight ∧ (∀ i, u.peer i = none) ∧ u.contextCount = 1 := by
  have hrun : ∃ s u x y, runs (System.step (http getServer))
      (System.start (http getServer) [] .zero [(ascii "/", 0)]) twoGets = some s ∧
        s.contextCount = 3 ∧ runs (System.step (http getServer)) s everyoneLeaves = some u ∧
          u.stopped = none ∧ u.connections = [.destroyed x, .destroyed y] :=
    ⟨_, _, _, _, rfl, rfl, rfl, rfl, rfl⟩
  obtain ⟨s, u, x, y, hs, hcount, hu, hrun, hconnections⟩ := hrun
  have hgone : ∀ i, u.peer i = none := by
    intro i
    unfold System.peer
    rw [hconnections]
    rcases i with _ | _ | i <;> rfl
  have hend : ∀ ev : Event, ev.Winding → System.step (http getServer) u ev = none := by
    intro ev hw
    cases ev with
    | accept n e junk => exact hw.elim
    | connection i a => simp [System.step, hrun, hgone i]
  have hdrained := contextCount_drained (http getServer) [] .zero _ hs (by decide +kernel) hu
  exact ⟨s, u, hs, hcount, hu, hdrained.1, hdrained.2 hrun hend⟩

end CsiHttp.Service
