import CsiHttp.Server.ReplyBuffer
import CsiHttp.Service.Lifetime
import CsiHttp.Service.Streams

/-!
# When the clients fall silent

An answer that is still due needs no client any more: the timer that holds it has to fire, and the
posted `handle_async_reply_done` has to run. Nothing can take these steps away, nothing else adds
any as long as no bytes arrive, and they do not end the program.
-/
namespace CsiHttp.Service

open Lib Lib.Text Lib.Runs Server

/-! ## One connection -/

/-- Nothing has been asked of the connection between two states of its log. -/
def Unasked (log log' : List Obs) : Prop := ∃ l, log' = log ++ l ∧ ∀ o ∈ l, o.Quiet

section Logs

variable {log log' log'' : List Obs}

theorem Unasked.refl (log : List Obs) : Unasked log log :=
  ⟨[], (List.append_nil log).symm, List.forall_mem_nil _⟩

theorem Unasked.trans (h : Unasked log log') (h' : Unasked log' log'') : Unasked log log'' := by
  obtain ⟨l, rfl, hl⟩ := h
  obtain ⟨l', rfl, hl'⟩ := h'
  exact ⟨l ++ l', List.append_assoc _ _ _, List.forall_mem_append.mpr ⟨hl, hl'⟩⟩

theorem Unasked.requests (h : Unasked log log') : requests log' = requests log := by
  obtain ⟨l, rfl, hl⟩ := h
  rw [requests_append, requests_quiet hl, List.append_nil]

theorem Unasked.demands (h : Unasked log log') (expected : Request → Option Answer) :
    demands expected log' = demands expected log := by
  obtain ⟨l, rfl, hl⟩ := h
  have hnone : l.filterMap (Obs.demand expected) = [] := by
    refine List.filterMap_eq_nil_iff.mpr fun o ho => ?_
    cases o with
    | dispatched r => exact (hl _ ho).elim
    | parsed m n => exact (hl _ ho).elim
    | callback _ | requestIdLogged _ | methodLogged _ | deferred | notified _ | replying _
    | replied _ _ | readStarted | timedOut _ => rfl
  unfold Service.demands
  rw [List.filterMap_append, hnone, List.append_nil]

end Logs

section Sessions

variable {E : Externals} {phase : E.parser.State → Phase} {tag : Bytes}
variable {s t : Session E.parser.State} {p : Peer E.parser.State} {ran : Ran E.parser.State}

/-- A connection of a server that has not crashed has its reply buffer, or nothing has reached it. -/
theorem buffered_alone (hP : E.parser.Documented phase) {as : List Activity}
    (h : Alone (http E) tag as s) (hf : s.fault = none) : Buffered s ∨ Untouched phase s := by
  obtain ⟨junk, evs, -, hevs⟩ := h
  have hnew : Untouched phase ((http E).started (.new tag junk E.parser.init)) :=
    (untouched_new hP tag junk).of_calm (Session.calm_startRead _)
  have hfault : s.fault ≠ some .nullReplyBuffer := by
    rw [hf]
    exact fun hn => by cases hn
  have hclean := (no_null_iff_along (http E).lawful hP hnew hevs).mp hfault
  exact invariant (I := fun s => Buffered s ∨ Untouched phase s) (D := StartsCleanly)
    (fun _ _ _ h hc hs => buffered_step (http E).lawful hP h hc hs) (Or.inr hnew) hclean hevs

theorem posted_sendReply (s : Session E.parser.State) : (s.sendReply E).posted = s.posted := by
  have hkept : Session.KeptBySending E
      (fun s t : Session E.parser.State => t.posted = s.posted) :=
    ⟨⟨fun _ => rfl, fun h h' => h'.trans h, fun _ _ => rfl, fun _ _ => rfl, fun _ _ => rfl,
      fun _ => rfl, fun _ => rfl⟩, fun _ => rfl, fun _ _ => rfl, fun _ _ _ => rfl⟩
  exact hkept.sendReply s

theorem posted_handleWrite (e : ErrorCode) (s : Session E.parser.State) :
    (HttpConnection.handleWrite e s).posted = s.posted := by
  unfold HttpConnection.handleWrite
  cases e with
  | operationAborted => rfl
  | success | failure =>
    dsimp only
    split
    · rfl
    · rfl

/-- Only the posted call is used up by a completion. -/
theorem posted_completed {ev : Server.Event} (hev : isCompletion ev = true)
    (hs : s.step E (HttpConnection.transport E) ev = some t) :
    (if ev = .asyncReplyDone then 1 else 0) + t.posted = s.posted := by
  obtain ⟨-, hstep⟩ := Session.stepped_of_step hs
  cases hstep with
  | read e bytes ops hr hb => cases hev
  | handler op hl => cases hev
  | handshake e hh => exact Nat.zero_add _
  | expire hp => exact Nat.zero_add _
  | timer i c timer hd =>
    change 0 + (HttpConnection.handleTimer c.wait c.code { s with timer := timer }).posted = _
    cases c.code <;> exact Nat.zero_add _
  | write i e hi =>
    change 0 + (HttpConnection.handleWrite e { s with writes := s.writes.eraseIdx i }).posted = _
    rw [posted_handleWrite]
    exact Nat.zero_add _
  | asyncReplyDone hp =>
    change 1 + (Session.sendReply E _).posted = s.posted
    rw [posted_sendReply]
    change 1 + (s.posted - 1) = s.posted
    omega

/-- A completion asks nothing of its connection and does not crash it. -/
theorem unasked_completed (h : Buffered s ∨ Untouched phase s) {ev : Server.Event}
    (hev : isCompletion ev = true) (hs : s.step E (HttpConnection.transport E) ev = some t) :
    t.fault = none ∧ Unasked s.log t.log := by
  obtain ⟨hf, hout⟩ := step_outcome (HttpConnection.lawful E) hs
  cases hout with
  | read bytes ops s' he hb hs' ht =>
    subst he
    cases hev
  | calm _ ht => exact ⟨ht.fault.trans hf, ht.quiet.log⟩
  | quiet _ ht htouched =>
    have hbuffered : Buffered s := h.resolve_right fun h => h.not_touches ev htouched
    exact ⟨(ht.fault hbuffered.buffer).trans hf, ht.log⟩

end Sessions

/-! ## The whole desk -/

/-- The event is a step on the way of an answer: a timer gives it, or a posted call sends it. -/
def Desk.Event.delivers : Desk.Event → Bool
  | .job _ | .complete _ .asyncReplyDone => true
  | _ => false

/-- The deliveries that are due. An answer in a timer takes two steps, one that has been handed in
takes one. -/
def Desk.pending {State : Type} (d : Desk State) : Nat :=
  2 * d.jobs.length + (d.system.connections.map (fun x => x.session.posted)).sum

/-- The desk has gone on from `d` to `d'` without being asked anything, and `n` deliveries have been
made. -/
structure Onward {State : Type} (d d' : Desk State) (n : Nat) : Prop where
  running : d'.system.stopped = none
  spent : n + d'.pending = d.pending
  kept : ∀ (i : Nat) x, d.system.connections[i]? = some x →
    ∃ y, d'.system.connections[i]? = some y ∧ Unasked x.session.log y.session.log

theorem Onward.refl {State : Type} {d : Desk State} (hrun : d.system.stopped = none) :
    Onward d d 0 :=
  ⟨hrun, Nat.zero_add _, fun _ x hx => ⟨x, hx, Unasked.refl _⟩⟩

theorem Onward.trans {State : Type} {d d' d'' : Desk State} {m n : Nat} (h : Onward d d' m)
    (h' : Onward d' d'' n) : Onward d d'' (m + n) := by
  refine ⟨h'.running, ?_, fun i x hx => ?_⟩
  · rw [Nat.add_assoc, h'.spent, h.spent]
  · obtain ⟨y, hy, hxy⟩ := h.kept i x hx
    obtain ⟨z, hz, hyz⟩ := h'.kept i y hy
    exact ⟨z, hz, hxy.trans hyz⟩

/-- No call is posted to a connection that has been destroyed. -/
def Buried {State : Type} (s : System State) : Prop :=
  ∀ last, .destroyed last ∈ s.connections → last.posted = 0

theorem buried_step {E : Externals} {T : Scheme E} {s t : System E.parser.State} {ev : Event}
    (h : Buried s) (hs : System.step T s ev = some t) : Buried t := by
  obtain ⟨-, hstep⟩ := System.stepped_of_step T hs
  cases hstep with
  | deaf e junk he ha => exact h
  | accepted junk ha =>
    intro last hlast
    rcases List.mem_append.mp hlast with hold | hnew
    · exact h last hold
    · cases List.mem_singleton.mp hnew
  | connection i a p ran hp ha =>
    intro last hlast
    rcases List.mem_or_eq_of_mem_set hlast with hold | hnew
    · exact h last hold
    · unfold Slot.settle at hnew
      split at hnew
      · rename_i howners
        obtain rfl := Slot.destroyed.inj hnew
        unfold Peer.owners at howners
        omega
      · cases hnew

section Desks

variable {E : Externals} {phase : E.parser.State → Phase} {tag : Bytes} {patterns : List Bytes}
variable {plan : Request → Plan} {d d' : Desk E.parser.State} {ev : Desk.Event}

/-- A desk that runs. -/
structure Poised (tag : Bytes) (patterns : List Bytes) (plan : Request → Plan)
    (d : Desk E.parser.State) : Prop where
  serving : Serving tag patterns plan d
  running : d.system.stopped = none
  buried : Buried d.system

theorem Poised.unfaulted (h : Poised tag patterns plan d) {i : Nat} {x : Slot E.parser.State}
    (hx : d.system.connections[i]? = some x) : x.session.fault = none := by
  obtain ⟨past, hapart⟩ := h.serving.apart
  exact hapart.unfaulted h.running i x hx

theorem Poised.sound (hP : E.parser.Documented phase) (h : Poised tag patterns plan d) {i : Nat}
    {x : Slot E.parser.State} (hx : d.system.connections[i]? = some x) :
    Buffered x.session ∨ Untouched phase x.session := by
  obtain ⟨past, hapart⟩ := h.serving.apart
  have hex : d.system.stopped ≠ some .exception := by
    rw [h.running]
    exact fun hstop => by cases hstop
  exact buffered_alone hP (hapart.alone hex i x hx) (h.unfaulted hx)

/-- Something has happened to connection `i`. -/
theorem Onward.of_finish {i : Nat} {p : Peer E.parser.State}
    (hp : d.system.connections[i]? = some (.alive p)) {ran : Ran E.parser.State}
    (hthrew : ran.threw = false) (hf : ran.peer.session.fault = none)
    (hlog : Unasked p.session.log ran.peer.session.log) {jobs : List (Nat × Answer)} {n : Nat}
    (hcount : n + (2 * jobs.length + ran.peer.session.posted) =
      2 * d.jobs.length + p.session.posted) : Onward d ⟨d.system.finish i ran, jobs⟩ n := by
  refine ⟨?_, ?_, fun j x hx => ?_⟩
  · change ran.stop = none
    unfold Ran.stop
    rw [hf, hthrew]
    rfl
  · have hsum := sum_set (fun x : Slot E.parser.State => x.session.posted) hp
      (y := Slot.settle ran.peer) (a := p.session.posted) (b := ran.peer.session.posted)
      (by rw [Slot.session_settle]; exact Nat.add_comm _ _)
    unfold Desk.pending
    change n + (2 * jobs.length + ((d.system.connections.set i _).map _).sum) = _
    omega
  · rw [getElem?_finish hp]
    by_cases hij : i = j
    · subst hij
      obtain rfl := Option.some.inj (hp.symm.trans hx)
      refine ⟨_, if_pos rfl, ?_⟩
      rw [Slot.session_settle]
      exact hlog
    · exact ⟨x, (if_neg hij).trans hx, Unasked.refl _⟩

theorem onward_accept (h : Poised tag patterns plan d) {n : Nat} {e : ErrorCode}
    {junk : Uninitialised} {t : System E.parser.State}
    (hs : System.step (http E) d.system (.accept n e junk) = some t) :
    Onward d { d with system := t } 0 := by
  obtain ⟨-, hstep⟩ := System.stepped_of_step (http E) hs
  cases hstep with
  | deaf e junk he ha => exact ⟨h.running, Nat.zero_add _, fun _ x hx => ⟨x, hx, Unasked.refl _⟩⟩
  | accepted junk ha =>
    refine ⟨h.running, ?_, fun i x hx => ⟨x, ?_, Unasked.refl _⟩⟩
    · unfold Desk.pending
      dsimp only
      rw [List.map_append, List.sum_append]
      exact Nat.zero_add _
    · obtain ⟨hi, -⟩ := List.getElem?_eq_some_iff.mp hx
      exact (List.getElem?_append_left hi).trans hx

/-- A read that brings nothing. -/
theorem onward_read (h : Poised tag patterns plan d) {i : Nat} {e : ErrorCode} {bytes : Bytes}
    (he : e ≠ .success) (hs : Desk.step (http E) patterns plan d (.read i e bytes) = some d') :
    Onward d d' 0 := by
  obtain ⟨-, p, ran, hq, ha, rfl⟩ := Desk.acted_of_read hs
  have hnone := presented_of_failed (http E) he bytes
  have hplanned : Desk.planned (http E) patterns plan e bytes p.session = none := by
    unfold Desk.planned
    rw [hnone]
    rfl
  rw [hplanned]
  have hfault : p.session.fault = none := h.unfaulted hq
  cases ha with
  | read _ _ _ hr hb =>
  rw [handleRead_of_not_presented (http E) (hnone _)]
  have hcalm := (http E).lawful.readFailed e bytes []
    ({ p.session with reads := p.session.reads - 1 } : Session E.parser.State) he
  refine Onward.of_finish hq rfl ?_ ?_ ?_
  · exact hcalm.fault.trans hfault
  · exact hcalm.quiet.log
  · have hposted : ((http E).transport.handleRead e bytes []
        { p.session with reads := p.session.reads - 1 }).posted = p.session.posted := hcalm.posted
    change 0 + (2 * (d.jobs ++ []).length + Session.posted _) = _
    rw [hposted, List.append_nil, Nat.zero_add]

theorem onward_completion (hP : E.parser.Documented phase) (h : Poised tag patterns plan d) {i : Nat}
    {ev : Server.Event} {t : System E.parser.State}
    (hs : System.step (http E) d.system (.connection i (.complete ev)) = some t) :
    Onward d { d with system := t } (if ev = .asyncReplyDone then 1 else 0) := by
  obtain ⟨-, hstep⟩ := System.stepped_of_step (http E) hs
  cases hstep with
  | connection _ _ p ran hp ha =>
  cases ha with
  | complete _ s hev hss =>
    obtain ⟨hf, hlog⟩ := unasked_completed (h.sound hP hp) hev hss
    have hposted := posted_completed hev hss
    refine Onward.of_finish hp rfl ?_ ?_ ?_
    · exact hf
    · exact hlog
    · dsimp only
      omega

theorem onward_shutdown (h : Poised tag patterns plan d) {i : Nat} {t : System E.parser.State}
    (hs : System.step (http E) d.system (.connection i .shutdown) = some t) :
    Onward d { d with system := t } 0 := by
  obtain ⟨-, hstep⟩ := System.stepped_of_step (http E) hs
  cases hstep with
  | connection _ _ p ran hp ha =>
  cases ha with
  | shutdown hh => exact Onward.of_finish hp rfl (h.unfaulted hp) (Unasked.refl _) (Nat.zero_add _)

/-- The timer of a handler finds the buffer that it writes to. -/
theorem onward_job (hP : E.parser.Documented phase) (h : Poised tag patterns plan d) {k i : Nat}
    {a : Answer} (hk : d.jobs[k]? = some (i, a)) :
    Onward d ⟨Desk.handlePost (http E) d.system i a, d.jobs.eraseIdx k⟩ 1 := by
  obtain ⟨p, q, hp, hjs, hlent, hwaiting, hq, hsession, -⟩ := h.serving.job h.running hk
  have hset : HttpConnection.Settled p.session := (h.serving.tended h.running i _ hp).settled
  have hbuffered : Buffered p.session := (h.sound hP hp).resolve_right fun hu => by
    have hfalse : p.session.lent = false := hu.lent
    rw [hlent] at hfalse
    cases hfalse
  have hquiet : Session.Quiet p.session q.session := by
    rw [hsession]
    exact Session.quiet_handlerOps (HttpConnection.lawful E).async _ _
  have hf : q.session.fault = none := (hquiet.fault hbuffered.buffer).trans (h.unfaulted hp)
  have hbefore : p.session.posted = 0 := by
    have hst := hset.staged.stage
    rw [hwaiting] at hst
    exact hst.2.2.1
  have hafter : q.session.posted = 1 := by
    obtain ⟨hstaged, hdone⟩ := handlerOps_notified hset hwaiting hsession
    have hst := hstaged.stage
    obtain ⟨r, hr⟩ := hdone hf
    rw [hr] at hst
    exact hst.2.2.1
  rw [hq]
  obtain ⟨hlen, -⟩ := List.getElem?_eq_some_iff.mp hk
  refine Onward.of_finish hp rfl ?_ ?_ ?_
  · exact hf
  · exact hquiet.log
  · dsimp only
    rw [hbefore, hafter, List.length_eraseIdx_of_lt hlen]
    omega

/-- The law of a step in which no bytes arrive. -/
theorem onward_step (hP : E.parser.Documented phase) (h : Poised tag patterns plan d)
    (hev : ∀ i, ev.portion i = none) (hs : Desk.step (http E) patterns plan d ev = some d') :
    Onward d d' (if ev.delivers then 1 else 0) := by
  cases ev with
  | accept n e junk =>
    obtain ⟨t, ht, rfl⟩ := Option.map_eq_some_iff.mp hs
    exact onward_accept h ht
  | read i e bytes =>
    refine onward_read h (fun he => ?_) hs
    subst he
    have hportion : some bytes = none := (if_pos rfl).symm.trans (hev i)
    cases hportion
  | complete i ev =>
    obtain ⟨t, ht, rfl⟩ := Option.map_eq_some_iff.mp hs
    have honward := onward_completion hP h ht
    cases ev with
    | asyncReplyDone => exact honward
    | handshake _ | read _ _ _ | write _ _ | expire | timer _ | handler _ => exact honward
  | shutdown i =>
    obtain ⟨t, ht, rfl⟩ := Option.map_eq_some_iff.mp hs
    exact onward_shutdown h ht
  | job k =>
    obtain ⟨-, hs⟩ := Option.ite_none_left_eq_some.mp hs
    obtain ⟨⟨i, a⟩, hj, rfl⟩ := Option.map_eq_some_iff.mp hs
    exact onward_job hP h hj

/-- No step of a desk posts a call to a destroyed connection. -/
theorem buried_desk (h : Buried d.system) (hs : Desk.step (http E) patterns plan d ev = some d') :
    Buried d'.system := by
  obtain ⟨es, hes⟩ := Desk.step_runs hs
  exact invariant (I := fun s => Buried s) (D := fun _ _ => True)
    (fun _ _ _ h _ hs => buried_step h hs) h (along_of_forall (fun _ _ => trivial) _ _) hes

theorem buried_runs {junk : Uninitialised} {regs : List (Bytes × UInt64)} {es : List Desk.Event}
    (hd : runs (Desk.step (http E) patterns plan) (Desk.start (http E) tag junk regs) es = some d) :
    Buried d.system :=
  invariant (I := fun d => Buried d.system) (D := fun _ _ => True)
    (fun _ _ _ h _ hs => buried_desk h hs) (fun _ hlast => by cases hlast)
    (along_of_forall (fun _ _ => trivial) _ _) hd

theorem poised_step (hP : E.parser.Documented phase) (h : Poised tag patterns plan d)
    (hev : ∀ i, ev.portion i = none) (hs : Desk.step (http E) patterns plan d ev = some d') :
    Poised tag patterns plan d' :=
  ⟨serving_step h.serving hs, (onward_step hP h hev hs).running, buried_desk h.buried hs⟩

/-- The law of a run in which no bytes arrive. -/
theorem onward_runs (hP : E.parser.Documented phase) (h : Poised tag patterns plan d)
    {fs : List Desk.Event} (hsilent : ∀ i, Desk.portions i fs = []) {u : Desk E.parser.State}
    (hu : runs (Desk.step (http E) patterns plan) d fs = some u) :
    Poised tag patterns plan u ∧ Onward d u (fs.countP Desk.Event.delivers) := by
  induction fs generalizing d with
  | nil =>
    obtain rfl := Option.some.inj hu
    exact ⟨h, Onward.refl h.running⟩
  | cons ev fs ih =>
    obtain ⟨t, ht, hu⟩ := runs_cons_iff.mp hu
    have hall : ∀ i, ev.portion i = none ∧ Desk.portions i fs = [] := by
      intro i
      obtain ⟨hev, hfs⟩ := List.forall_mem_cons.mp (List.filterMap_eq_nil_iff.mp (hsilent i))
      exact ⟨hev, List.filterMap_eq_nil_iff.mpr hfs⟩
    have honward := onward_step hP h (fun i => (hall i).1) ht
    obtain ⟨hpoised, hrest⟩ :=
      ih (poised_step hP h (fun i => (hall i).1) ht) (fun i => (hall i).2) hu
    refine ⟨hpoised, ?_⟩
    rw [List.countP_cons, Nat.add_comm]
    exact honward.trans hrest

theorem pending_eq_zero_iff : d.pending = 0 ↔
    d.jobs = [] ∧ ∀ x ∈ d.system.connections, x.session.posted = 0 := by
  unfold Desk.pending
  rw [Nat.add_eq_zero_iff, List.sum_eq_zero_iff_forall_eq_nat, List.forall_mem_map,
    ← List.length_eq_zero_iff]
  exact and_congr_left fun _ => by omega

/-- As long as a delivery is due one can be made. -/
theorem Poised.next (h : Poised tag patterns plan d) (hpending : d.pending ≠ 0) :
    ∃ ev : Desk.Event, ev.delivers = true ∧ (Desk.step (http E) patterns plan d ev).isSome := by
  by_cases hjobs : d.jobs = []
  · obtain ⟨x, hx, hposted⟩ : ∃ x ∈ d.system.connections, x.session.posted ≠ 0 := by
      by_contra hnone
      push Not at hnone
      exact hpending (pending_eq_zero_iff.mpr ⟨hjobs, hnone⟩)
    obtain ⟨i, hi⟩ := List.mem_iff_getElem?.mp hx
    cases x with
    | destroyed last => exact absurd (h.buried last hx) hposted
    | alive p =>
      have hpeer := System.peer_eq_some.mpr hi
      have hf : p.session.fault = none := h.unfaulted hi
      have hpos : 0 < p.session.posted := Nat.pos_of_ne_zero hposted
      refine ⟨.complete i .asyncReplyDone, rfl, ?_⟩
      simp [Desk.step, System.step, h.running, hpeer, Activity.run, isCompletion, Session.step, hf,
        hpos]
  · refine ⟨.job 0, rfl, ?_⟩
    obtain ⟨j, js, hj⟩ := List.exists_cons_of_ne_nil hjobs
    simp [Desk.step, h.running, hj]

/-- When no delivery is due the client reads all that it has been owed. -/
theorem Poised.reads_all (h : Poised tag patterns plan d) (hpending : d.pending = 0) {i : Nat}
    {x : Slot E.parser.State} (hx : d.system.connections[i]? = some x)
    (hplan : ∀ r ∈ requests x.session.log, ∀ a, (plan r).answer = some a → a.Sendable) :
    ∃ ms, Wire.readMessages (wire x.session.log) = some ms ∧
      List.Forall₂ Answer.ReadAs (demands (expected patterns plan) x.session.log) ms := by
  obtain ⟨hjobs, hposted⟩ := pending_eq_zero_iff.mp hpending
  obtain ⟨as, ms, owed, hms, hreads, hdemands, hdue⟩ :=
    (h.serving.tended h.running i x hx).reads (h.unfaulted hx) hplan
  have hnone : owed = none := by
    cases owed with
    | none => rfl
    | some a =>
      rcases hdue with ⟨hjob, -⟩ | ⟨-, hone⟩
      · have hnil : d.jobsOf i = [] := by
          unfold Desk.jobsOf
          rw [hjobs]
          rfl
        rw [hnil] at hjob
        cases hjob
      · rw [hposted x (List.mem_of_getElem? hx)] at hone
        cases hone
  subst hnone
  refine ⟨ms, hms, ?_⟩
  rw [hdemands, Option.toList_none, List.append_nil]
  exact hreads

/-- From any state of a desk that runs: if no bytes arrive any more, then whatever else happens, and
in whichever order, the program goes on, and each delivery brings the number of those that are due
down by one. One can be made as long as any is due. When none is, the bytes of each connection whose
answers can be sent read as the answers to all that it has taken in. -/
theorem answers_settle (E : Externals) {phase : E.parser.State → Phase}
    (hP : E.parser.Documented phase) (tag : Bytes) (junk : Uninitialised)
    (regs : List (Bytes × UInt64)) (plan : Request → Plan) {es fs : List Desk.Event}
    {d u : Desk E.parser.State}
    (hd : runs (Desk.step (http E) (regs.map Prod.fst) plan) (Desk.start (http E) tag junk regs) es =
      some d) (hrun : d.system.stopped = none) (hsilent : ∀ i, Desk.portions i fs = [])
    (hu : runs (Desk.step (http E) (regs.map Prod.fst) plan) d fs = some u) :
    u.system.stopped = none ∧ fs.countP Desk.Event.delivers + u.pending = d.pending ∧
    (u.pending ≠ 0 → ∃ ev : Desk.Event, ev.delivers = true ∧
      (Desk.step (http E) (regs.map Prod.fst) plan u ev).isSome) ∧
    (u.pending = 0 → ∀ (i : Nat) x, d.system.connections[i]? = some x →
      (∀ r ∈ requests x.session.log, ∀ a, (plan r).answer = some a → a.Sendable) →
      ∃ y ms, u.system.connections[i]? = some y ∧ Wire.readMessages (wire y.session.log) = some ms ∧
        List.Forall₂ Answer.ReadAs (demands (expected (regs.map Prod.fst) plan) x.session.log)
          ms) := by
  have hpoised : Poised tag (regs.map Prod.fst) plan d :=
    ⟨serving_runs E tag junk regs plan hd, hrun, buried_runs hd⟩
  obtain ⟨hlast, honward⟩ := onward_runs hP hpoised hsilent hu
  refine ⟨honward.running, honward.spent, hlast.next, fun hpending i x hx hplan => ?_⟩
  obtain ⟨y, hy, hasked⟩ := honward.kept i x hx
  rw [← hasked.requests] at hplan
  obtain ⟨ms, hms, hreads⟩ := hlast.reads_all hpending hy hplan
  rw [hasked.demands] at hreads
  exact ⟨y, ms, hy, hms, hreads⟩

end Desks

/-- The second client of `deferredGets` waits for its answer. A third one is accepted and leaves
again while the answer is handed in. -/
def silence : List Desk.Event :=
  [.job 0, .accept 2 .success .zero, .read 2 .failure [], .complete 1 .asyncReplyDone]

theorem answers_settle_silence : ∃ d u,
    runs (Desk.step (http getServer) [ascii "/"] greet)
      (Desk.start (http getServer) [] .zero [(ascii "/", 0)]) deferredGets = some d ∧
    runs (Desk.step (http getServer) [ascii "/"] greet) d silence = some u ∧
    u.system.stopped = none ∧ silence.countP Desk.Event.delivers + u.pending = d.pending ∧
    (u.pending ≠ 0 → ∃ ev : Desk.Event, ev.delivers = true ∧
      (Desk.step (http getServer) [ascii "/"] greet u ev).isSome) ∧
    (u.pending = 0 → ∀ (i : Nat) x, d.system.connections[i]? = some x →
      (∀ r ∈ requests x.session.log, ∀ a, (greet r).answer = some a → a.Sendable) →
      ∃ y ms, u.system.connections[i]? = some y ∧ Wire.readMessages (wire y.session.log) = some ms ∧
        List.Forall₂ Answer.ReadAs (demands (expected [ascii "/"] greet) x.session.log) ms) := by
  have hrun : ∃ d u, runs (Desk.step (http getServer) [ascii "/"] greet)
      (Desk.start (http getServer) [] .zero [(ascii "/", 0)]) deferredGets = some d ∧
        d.system.stopped = none ∧
          runs (Desk.step (http getServer) [ascii "/"] greet) d silence = some u :=
    ⟨_, _, rfl, rfl, rfl⟩
  obtain ⟨d, u, hd, hrunning, hu⟩ := hrun
  exact ⟨d, u, hd, hu, answers_settle getServer (tableParser_documented _) [] .zero
    [(ascii "/", 0)] greet hd hrunning (fun _ => rfl) hu⟩

end CsiHttp.Service
