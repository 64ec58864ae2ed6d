import CsiHttp.Server.CleanStream
import CsiHttp.Service.Conversation

/-!
# Every message its answer

A connection of a desk has come about by a run of its own that keeps to the contract. What is
known of such runs ties the bytes that a client sends to the bytes that it gets back.
-/
namespace CsiHttp.Service

open Lib Lib.Text Lib.Runs Lib.Framing Server

/-! ## Portions -/

/-- The bytes that an event brings to connection `i`. -/
def Desk.Event.portion (i : Nat) : Desk.Event → Option Bytes
  | .read j .success bytes => if j = i then some bytes else none
  | _ => none

def Desk.portions (i : Nat) (es : List Desk.Event) : List Bytes :=
  es.filterMap (Desk.Event.portion i)

theorem portions_concat (i : Nat) (es : List Desk.Event) (ev : Desk.Event) :
    Desk.portions i (es ++ [ev]) = Desk.portions i es ++ (ev.portion i).toList :=
  filterMap_concat _ es ev

/-! ## Runs of one connection -/

section Sessions

variable {E : Externals} {tag : Bytes} {ps : List Bytes} {s t : Session E.parser.State}

/-- A disciplined run of the connection alone, in which it has read `ps`, ends like this. -/
def Steady (E : Externals) (tag : Bytes) (ps : List Bytes) (s : Session E.parser.State) : Prop :=
  ∃ junk evs, Along (HttpConnection.step E) Disciplined (HttpConnection.start E tag junk) evs ∧
    runs (HttpConnection.step E) (HttpConnection.start E tag junk) evs = some s ∧
      Server.portions evs = ps

theorem Steady.runs (h : Steady E tag ps s) {evs : List Server.Event}
    (hd : Along (HttpConnection.step E) Disciplined s evs)
    (hr : Runs.runs (HttpConnection.step E) s evs = some t) :
    Steady E tag (ps ++ Server.portions evs) t := by
  obtain ⟨junk, past, hpast, hs, rfl⟩ := h
  refine ⟨junk, past ++ evs, (along_append hs).mpr ⟨hpast, hd⟩, runs_append_iff.mpr ⟨s, hs, hr⟩, ?_⟩
  exact List.filterMap_append

theorem Steady.step (h : Steady E tag ps s) {ev : Server.Event} (hd : Disciplined s ev)
    (hs : HttpConnection.step E s ev = some t) : Steady E tag (ps ++ ev.portion.toList) t := by
  have hportion : Server.portions [ev] = ev.portion.toList :=
    filterMap_concat Server.Event.portion [] ev
  have hone : Along (HttpConnection.step E) Disciplined s [ev] := (along_cons hs).mpr ⟨hd, trivial⟩
  exact hportion ▸ h.runs hone (runs_cons_iff.mpr ⟨t, hs, rfl⟩)

/-- A handler that gives its answer later takes the steps of a connection one by one. -/
theorem handlerOps_along (hst : Staged 0 s.reads s.posted s) (hx : s.exchange = .waiting)
    (hl : s.lent = true) (hf : s.fault = none) {ops : List HandlerOp} {d : Deferral}
    (hfollow : Deferral.waiting.follow ops = some d)
    (hend : (s.handlerOps E (HttpConnection.async E) ops).fault = none) :
    Along (HttpConnection.step E) Disciplined s (ops.map .handler) ∧
      Runs.runs (HttpConnection.step E) s (ops.map .handler) =
        some (s.handlerOps E (HttpConnection.async E) ops) := by
  induction ops generalizing s with
  | nil => exact ⟨trivial, rfl⟩
  | cons op ops ih =>
    obtain ⟨d', hnext, hrest⟩ := Option.bind_eq_some_iff.mp hfollow
    have hstep : HttpConnection.step E s (.handler op) =
        some (s.handlerOp E (HttpConnection.async E) op) := by
      unfold HttpConnection.step Session.step
      rw [if_neg (by rw [hf]; exact Bool.false_ne_true)]
      exact if_pos hl
    have hdisc : Disciplined s (.handler op) := ⟨hx, by rw [hnext]; rfl⟩
    rw [handlerOps_cons] at hend ⊢
    have hop : (s.handlerOp E (HttpConnection.async E) op).fault = none := by
      by_contra hfault
      rw [andThen_of_fault hfault] at hend
      exact hfault hend
    rw [andThen_of_none hop] at hend ⊢
    have hat : Deferral.waiting.At s.exchange := hx
    obtain ⟨hst', hat'⟩ := handlerOp_staged (E := E) (HttpConnection.counting E) hst hat hnext
    cases d' with
    | asked => exact absurd hnext (by cases op <;> exact fun h => by cases h)
    | done =>
      -- the notification is the last action
      cases ops with
      | nil => exact ⟨(along_cons hstep).mpr ⟨hdisc, trivial⟩, runs_cons_iff.mpr ⟨_, hstep, rfl⟩⟩
      | cons op' ops => cases hrest
    | waiting =>
      obtain ⟨halong, hruns⟩ := ih hst' hat' ((handlerOp_lent s op).trans hl) hop hrest hend
      exact ⟨(along_cons hstep).mpr ⟨hdisc, halong⟩, runs_cons_iff.mpr ⟨_, hstep, hruns⟩⟩

theorem portions_handlers (ops : List HandlerOp) : Server.portions (ops.map .handler) = [] := by
  apply List.filterMap_eq_nil_iff.mpr
  rw [List.forall_mem_map]
  exact fun _ _ => rfl

end Sessions

/-! ## All connections -/

/-- The law of a desk in which `past` has happened. -/
structure Attended {E : Externals} (tag : Bytes) (past : List Desk.Event)
    (d : Desk E.parser.State) : Prop where
  unborn : ∀ i, d.system.connections.length ≤ i → Desk.portions i past = []
  steady : d.system.stopped = none → ∀ (i : Nat) x, d.system.connections[i]? = some x →
    Steady E tag (Desk.portions i past) x.session

section Desks

variable {E : Externals} {tag : Bytes} {patterns : List Bytes} {plan : Request → Plan}
variable {past : List Desk.Event} {d d' : Desk E.parser.State} {ev : Desk.Event}

/-- An event of connection `i`. -/
theorem attended_finish (h : Attended tag past d) (hrun : d.system.stopped = none) {i : Nat}
    {p : Peer E.parser.State} (hp : d.system.connections[i]? = some (.alive p))
    {ran : Ran E.parser.State} (hd' : d'.system = d.system.finish i ran)
    (hothers : ∀ j, i ≠ j → ev.portion j = none)
    (hsteady : ran.stop = none → Steady E tag (Desk.portions i past ++ (ev.portion i).toList)
      ran.peer.session) : Attended tag (past ++ [ev]) d' := by
  obtain ⟨hi, -⟩ := List.getElem?_eq_some_iff.mp hp
  have hlen : d'.system.connections.length = d.system.connections.length := by
    rw [hd']
    exact List.length_set
  refine ⟨fun j hj => ?_, fun hstop j x hx => ?_⟩
  · rw [hlen] at hj
    rw [portions_concat, hothers j (Nat.ne_of_lt (Nat.lt_of_lt_of_le hi hj)), h.unborn j hj]
    rfl
  · rw [hd'] at hx hstop
    rw [getElem?_finish hp] at hx
    rw [portions_concat]
    by_cases hij : i = j
    · subst hij
      rw [if_pos rfl] at hx
      obtain rfl := Option.some.inj hx
      rw [Slot.session_settle]
      exact hsteady hstop
    · rw [if_neg hij] at hx
      rw [hothers j hij, Option.toList_none, List.append_nil]
      exact h.steady hrun j x hx

theorem attended_accept (h : Attended tag past d) (hserving : Serving tag patterns plan d) {n : Nat}
    {e : ErrorCode} {junk : Uninitialised} {t : System E.parser.State}
    (hs : System.step (http E) d.system (.accept n e junk) = some t) :
    Attended tag (past ++ [.accept n e junk]) { d with system := t } := by
  have hportion : ∀ i, Desk.portions i (past ++ [.accept n e junk]) = Desk.portions i past := by
    intro i
    rw [portions_concat]
    exact List.append_nil _
  obtain ⟨es, hapart⟩ := hserving.apart
  obtain ⟨junk', hnext⟩ := hapart.next
  obtain ⟨hrun, hstep⟩ := System.stepped_of_step (http E) hs
  cases hstep with
  | deaf e junk he ha =>
    refine ⟨fun i hi => ?_, fun hstop i x hx => ?_⟩
    · rw [hportion]
      exact h.unborn i hi
    · rw [hportion]
      exact h.steady hstop i x hx
  | accepted junk ha =>
    refine ⟨fun i hi => ?_, fun hstop i x hx => ?_⟩
    · rw [hportion]
      change (d.system.connections ++ [_]).length ≤ i at hi
      rw [List.length_append] at hi
      exact h.unborn i (by omega)
    · rw [hportion]
      rcases getElem?_concat_eq_some hx with hold | ⟨rfl, rfl⟩
      · exact h.steady hrun i x hold
      · rw [h.unborn _ (Nat.le_refl _), hnext]
        exact ⟨junk', [], trivial, rfl, rfl⟩

/-- A read of a desk is a read of the connection on its own. -/
theorem read_steady {server : Server (Visit E.parser.State)} {p : Peer E.parser.State}
    {ran : Ran E.parser.State} {ps : List Bytes}
    (hs : Registered (react E (HttpConnection.async E)) patterns server)
    (hf : p.session.fault = none) {e : ErrorCode} {bytes : Bytes} (x : Option Plan)
    (ha : Acted (http E) server p (.read e bytes (x.elim ⟨[], 0, false⟩ Plan.reaction)) ran)
    (hstop : ran.stop = none) (h : Steady E tag ps p.session) :
    Steady E tag (ps ++ (Server.Event.read e bytes []).portion.toList) ran.peer.session := by
  have hreg : ran.Regular := by
    intro hex
    rw [hstop] at hex
    cases hex
  cases ha with
  | read _ _ _ hr hb =>
  obtain ⟨ops, hops, hsession⟩ := handleRead_session (T := http E) hs e bytes _ hreg
  have hstep : HttpConnection.step E p.session (.read e bytes ops) =
      some (HttpConnection.handleRead E e bytes ops { p.session with reads := p.session.reads - 1 }) := by
    unfold HttpConnection.step Session.step
    rw [if_neg (by rw [hf]; exact Bool.false_ne_true)]
    exact if_pos ⟨hr, hb⟩
  have hdisc := disciplined_of_reaction (plan_disciplined x p.session e bytes) hops
  have hportion : (Server.Event.read e bytes ops).portion = (Server.Event.read e bytes []).portion := by
    cases e <;> rfl
  rw [hsession, ← hportion]
  exact h.step hdisc hstep

/-- The timer of a handler fires. -/
theorem attended_job (h : Attended tag past d) (hserving : Serving tag patterns plan d)
    (hrun : d.system.stopped = none) {k i : Nat} {a : Answer} (hj : d.jobs[k]? = some (i, a)) :
    Attended tag (past ++ [.job k])
      ⟨Desk.handlePost (http E) d.system i a, d.jobs.eraseIdx k⟩ := by
  obtain ⟨es, hapart⟩ := hserving.apart
  obtain ⟨p, q, hp, hjs, hlent, hwaiting, hq, hsession, -⟩ := hserving.job hrun hj
  refine attended_finish h hrun hp hq (fun _ _ => rfl) fun hstop => ?_
  have hend : (p.session.handlerOps E (HttpConnection.async E)
      (a.ops ++ [.notifyAsyncReplyDone])).fault = none := by
    rw [← hsession]
    exact fault_of_running hstop
  have hfollow : Deferral.waiting.follow (a.ops ++ [.notifyAsyncReplyDone]) = some .done :=
    follow_answer (Or.inr rfl) a _
  obtain ⟨halong, hruns⟩ := handlerOps_along (hserving.tended hrun i _ hp).settled.staged
    hwaiting hlent (hapart.unfaulted hrun i _ hp) hfollow hend
  have hsteady := (h.steady hrun i _ hp).runs halong hruns
  rw [portions_handlers] at hsteady
  have hlast : q.session = _ := hsession
  rw [hlast]
  exact hsteady

theorem attended_step (h : Attended tag past d) (hserving : Serving tag patterns plan d)
    (hs : Desk.step (http E) patterns plan d ev = some d') : Attended tag (past ++ [ev]) d' := by
  obtain ⟨es, hapart⟩ := hserving.apart
  cases ev with
  | accept n e junk =>
    obtain ⟨t, ht, rfl⟩ := Option.map_eq_some_iff.mp hs
    exact attended_accept h hserving ht
  | read i e bytes =>
    obtain ⟨hrun, p, ran, hq, ha, rfl⟩ := Desk.acted_of_read hs
    refine attended_finish h hrun hq rfl (fun j hij => ?_) fun hstop => ?_
    · cases e with
      | success => exact if_neg hij
      | operationAborted | failure => rfl
    · have hportion : (Desk.Event.read i e bytes).portion i =
          (Server.Event.read e bytes []).portion := by
        cases e with
        | success => exact if_pos rfl
        | operationAborted | failure => rfl
      rw [hportion]
      exact read_steady hapart.registered (hapart.unfaulted hrun i _ hq) _ ha hstop
        (h.steady hrun i _ hq)
  | complete i ev =>
    obtain ⟨t, ht, rfl⟩ := Option.map_eq_some_iff.mp hs
    obtain ⟨hrun, hstep⟩ := System.stepped_of_step (http E) ht
    cases hstep with
    | connection _ _ p ran hp ha =>
    refine attended_finish h hrun hp rfl (fun _ _ => rfl) fun hstop => ?_
    cases ha with
    | complete _ s hev hss =>
      have hstep := (h.steady hrun i _ hp).step (disciplined_of_completion _ hev) hss
      have hnone : ev.portion = none := by
        cases ev with
        | read _ _ _ | handler _ => cases hev
        | handshake _ | write _ _ | expire | timer _ | asyncReplyDone => rfl
      rwa [hnone] at hstep
  | shutdown i =>
    obtain ⟨t, ht, rfl⟩ := Option.map_eq_some_iff.mp hs
    obtain ⟨hrun, hstep⟩ := System.stepped_of_step (http E) ht
    cases hstep with
    | connection _ _ p ran hp ha =>
    refine attended_finish h hrun hp rfl (fun _ _ => rfl) fun hstop => ?_
    cases ha with
    | shutdown hh =>
      exact (List.append_nil (Desk.portions i past)).symm ▸ h.steady hrun i _ hp
  | job k =>
    obtain ⟨hrun, hs⟩ := Option.ite_none_left_eq_some.mp hs
    obtain ⟨⟨i, a⟩, hj, rfl⟩ := Option.map_eq_some_iff.mp hs
    exact attended_job h hserving (by simpa using hrun) hj

theorem attended_runs (E : Externals) (tag : Bytes) (junk : Uninitialised)
    (regs : List (Bytes × UInt64)) (plan : Request → Plan) {es : List Desk.Event}
    {u : Desk E.parser.State}
    (h : runs (Desk.step (http E) (regs.map Prod.fst) plan) (Desk.start (http E) tag junk regs) es =
      some u) : Attended tag es u := by
  have hstart : Attended tag [] (Desk.start (http E) tag junk regs) :=
    ⟨fun _ _ => rfl, fun _ _ _ hx => by cases hx⟩
  have hlast : Attended tag ([] ++ es) u ∧ Serving tag (regs.map Prod.fst) plan u :=
    history (I := fun past d => Attended tag past d ∧ Serving tag (regs.map Prod.fst) plan d)
      (D := fun _ _ => True)
      (fun past d ev d' hI _ hs => ⟨attended_step hI.1 hI.2 hs, serving_step hI.2 hs⟩)
      ⟨hstart, serving_start E tag junk regs plan⟩ (along_of_forall (fun _ _ => trivial) _ _) h
  exact hlast.1

end Desks

/-! ## From the messages of a client to its answers -/

/-- The answer to a request, if the plan depends on what has been received of it. -/
def expectedView (patterns : List Bytes) (rule : Request.View → Plan) (v : Request.View) :
    Option Answer :=
  match routed patterns v.url with
  | some _ => (rule v).answer
  | none => some .notFound

theorem demands_of_whole {patterns : List Bytes} {rule : Request.View → Plan} {log : List Obs}
    (h : ParsedWhole log) : demands (expected patterns (fun r => rule r.view)) log =
      (dispatchedViews log).filterMap (expectedView patterns rule) := by
  unfold demands dispatchedViews
  rw [List.filterMap_map, List.filterMap_filterMap]
  apply List.filterMap_congr
  intro o ho
  cases o with
  | dispatched r => rfl
  | parsed m n => exact if_pos (h m n ho)
  | callback _ | requestIdLogged _ | methodLogged _ | deferred | notified _ | replying _
  | replied _ _ | readStarted | timedOut _ => rfl

theorem map_eq_of_filterMap {α β : Type} {f : α → Option β} {l : List α} {bs : List β}
    (hall : ∀ a ∈ l, f a ≠ none) (h : l.filterMap f = bs) : l.map f = bs.map some := by
  subst h
  induction l with
  | nil => rfl
  | cons a l ih =>
    obtain ⟨ha, hl⟩ := List.forall_mem_cons.mp hall
    obtain ⟨b, hb⟩ := Option.ne_none_iff_exists'.mp ha
    rw [List.map_cons, List.filterMap_cons, hb, List.map_cons, ih hl]

/-- What a connection gives back to a client that sends clean messages and ends each of them with a
read. -/
theorem Attended.answers {E : Externals} (hurl : ReadsTargets E.parser.parseUrl) {tag : Bytes}
    {patterns : List Bytes} {rule : Request.View → Plan} {es : List Desk.Event}
    {u : Desk E.parser.State} (h : Attended tag es u)
    (hserving : Serving tag patterns (fun r => rule r.view) u) (hrun : u.system.stopped = none)
    {i : Nat} {x : Slot E.parser.State} (hx : u.system.connections[i]? = some x) {sent : List Sent}
    (hclean : ∀ m ∈ sent, m.Clean E.parser.parseUrl)
    (hcarries : Carries E.parser sent (Desk.portions i es))
    (haligned : Aligned Sent.size sent ((Desk.portions i es).map List.length))
    (hrule : ∀ m ∈ sent, ∀ a, (rule (m.own E.parser.parseUrl)).answer = some a → a.Sendable) :
    ∃ as ms owed, Wire.readMessages (wire x.session.log) = some ms ∧
      List.Forall₂ Answer.ReadAs as ms ∧
      (whole Sent.size sent (Desk.portions i es).flatten.length).map
          (fun m => expectedView patterns rule (m.own E.parser.parseUrl)) =
        (as ++ owed.toList).map some ∧ u.Due i x.session owed := by
  obtain ⟨past, hapart⟩ := hserving.apart
  obtain ⟨junk, evs, halong, hruns, hportions⟩ := h.steady hrun i x hx
  rw [← hportions] at hcarries haligned ⊢
  obtain ⟨hviews, hwhole⟩ :=
    HttpConnection.clean_runs hurl tag junk hclean hcarries haligned halong hruns
  have hplan : ∀ r ∈ requests x.session.log, ∀ a, (rule r.view).answer = some a → a.Sendable := by
    intro r hr a ha
    have hmem : r.view ∈ dispatchedViews x.session.log := List.mem_map_of_mem hr
    rw [hviews] at hmem
    obtain ⟨m, hm, hown⟩ := List.mem_map.mp hmem
    refine hrule m ?_ a (hown ▸ ha)
    rw [← whole_append_rest Sent.size sent (Server.portions evs).flatten.length]
    exact List.mem_append_left _ hm
  obtain ⟨as, ms, owed, hms, hreads, hdemands, hdue⟩ :=
    (hserving.tended hrun i x hx).reads (hapart.unfaulted hrun i x hx) hplan
  refine ⟨as, ms, owed, hms, hreads, ?_, hdue⟩
  rw [demands_of_whole hwhole] at hdemands
  have hall : ∀ v ∈ dispatchedViews x.session.log, expectedView patterns rule v ≠ none := by
    intro v hv
    obtain ⟨r, hr, rfl⟩ := List.mem_map.mp hv
    exact hserving.answerable hrun (List.mem_of_getElem? hx) r hr
  have hmap := map_eq_of_filterMap hall hdemands
  rw [hviews, List.map_map] at hmap
  exact hmap

/-- A client sends clean messages, so none is cut badly within its target; every message ends with a
read, and every answer can be sent. Whatever the other clients do, and however the messages are cut
elsewhere, the bytes that it gets back are the answers to its messages: one for each, in their
order, and at most the last one is still due. -/
theorem messages_answered (E : Externals) (hurl : ReadsTargets E.parser.parseUrl) (tag : Bytes)
    (junk : Uninitialised) (regs : List (Bytes × UInt64)) (rule : Request.View → Plan)
    {es : List Desk.Event} {u : Desk E.parser.State}
    (h : runs (Desk.step (http E) (regs.map Prod.fst) (fun r => rule r.view))
      (Desk.start (http E) tag junk regs) es = some u) (hrun : u.system.stopped = none) {i : Nat}
    {x : Slot E.parser.State} (hx : u.system.connections[i]? = some x) {sent : List Sent}
    (hclean : ∀ m ∈ sent, m.Clean E.parser.parseUrl)
    (hcarries : Carries E.parser sent (Desk.portions i es))
    (haligned : Aligned Sent.size sent ((Desk.portions i es).map List.length))
    (hrule : ∀ m ∈ sent, ∀ a, (rule (m.own E.parser.parseUrl)).answer = some a → a.Sendable) :
    ∃ as ms owed, Wire.readMessages (wire x.session.log) = some ms ∧
      List.Forall₂ Answer.ReadAs as ms ∧
      (whole Sent.size sent (Desk.portions i es).flatten.length).map
          (fun m => expectedView (regs.map Prod.fst) rule (m.own E.parser.parseUrl)) =
        (as ++ owed.toList).map some ∧ u.Due i x.session owed :=
  (attended_runs E tag junk regs (fun r => rule r.view) h).answers hurl
    (serving_runs E tag junk regs (fun r => rule r.view) h) hrun hx hclean hcarries haligned hrule

/-- The message of the first client of `deferredGets`. -/
def rootGet : Sent := HttpConnection.getSent (ascii "/") (by decide)

theorem rootGet_clean : rootGet.Clean readRooted := by
  have htarget : Target rootGet.target := by decide
  refine ⟨?_, by decide, rfl⟩
  unfold CutWell
  rw [if_pos htarget]
  exact rfl

theorem rootGet_carries : Carries getServer.parser [rootGet] (Desk.portions 0 deferredGets) :=
  HttpConnection.tableParser_carries (List.cons_ne_nil _ _) (by decide +kernel) (by decide +kernel)

theorem rootGet_aligned :
    Aligned Sent.size [rootGet] ((Desk.portions 0 deferredGets).map List.length) :=
  aligned_map Sent.size [rootGet]

theorem messages_answered_deferredGets : ∃ u x as ms owed,
    runs (Desk.step (http getServer) [ascii "/"] greet)
      (Desk.start (http getServer) [] .zero [(ascii "/", 0)]) deferredGets = some u ∧
    u.system.connections[0]? = some x ∧ Wire.readMessages (wire x.session.log) = some ms ∧
      List.Forall₂ Answer.ReadAs as ms ∧
      (whole Sent.size [rootGet] (Desk.portions 0 deferredGets).flatten.length).map
          (fun m => expectedView [ascii "/"] (fun _ => .later ⟨.ok, [ascii "hello "]⟩)
            (m.own readRooted)) = (as ++ owed.toList).map some ∧ u.Due 0 x.session owed := by
  have hrun : ∃ u x, runs (Desk.step (http getServer) [ascii "/"] greet)
      (Desk.start (http getServer) [] .zero [(ascii "/", 0)]) deferredGets = some u ∧
        u.system.stopped = none ∧ u.system.connections[0]? = some x := ⟨_, _, rfl, rfl, rfl⟩
  obtain ⟨u, x, hu, hrunning, hx⟩ := hrun
  have hrule : ∀ m ∈ [rootGet], ∀ a,
      (Plan.later ⟨.ok, [ascii "hello "]⟩).answer = some a → a.Sendable := by
    intro m _ a ha
    obtain rfl := Option.some.inj ha
    exact ⟨by decide, by decide, by decide⟩
  obtain ⟨as, ms, owed, hall⟩ := messages_answered getServer readRooted_readsTargets [] .zero
    [(ascii "/", 0)] (fun _ => .later ⟨.ok, [ascii "hello "]⟩) hu hrunning hx
    (List.forall_mem_singleton.mpr rootGet_clean) rootGet_carries rootGet_aligned hrule
  exact ⟨u, x, as, ms, owed, hu, hx, hall⟩

end CsiHttp.Service
