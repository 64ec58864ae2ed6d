import CsiHttp.Server.HttpExchange
import CsiHttp.Server.Stream

/-!
# Every message is passed to its handler

On `http_connection` the test of `request_complete()` comes once for each read, after all
callbacks of the read. While a message is only partly received nothing but the next read
touches the connection, so what has been assembled of it is still there. The requests
passed on are those received in whole exactly as long as every message ends with a read
and is clean.
-/
namespace CsiHttp.Server

open Lib Lib.Text Lib.Runs Lib.Framing

def Obs.request : Obs → Option Request
  | .dispatched r => some r
  | _ => none

/-- What has been passed to `server::handle_request`. -/
def dispatchedViews (log : List Obs) : List Request.View :=
  (log.filterMap Obs.request).map Request.view

/-- The bytes an event brings. -/
def Event.portion : Event → Option Bytes
  | .read .success bytes _ => some bytes
  | _ => none

def portions (es : List Event) : List Bytes := es.filterMap Event.portion

theorem dispatchedViews_append (l l' : List Obs) :
    dispatchedViews (l ++ l') = dispatchedViews l ++ dispatchedViews l' := by
  simp [dispatchedViews]

theorem dispatchedViews_quiet {l : List Obs} (h : ∀ o ∈ l, o.Quiet) : dispatchedViews l = [] := by
  have hnone : l.filterMap Obs.request = [] := by
    rw [List.filterMap_eq_nil_iff]
    intro o ho
    have hq := h o ho
    cases o with
    | dispatched r => exact absurd hq id
    | callback _ | parsed _ _ | requestIdLogged _ | methodLogged _ | deferred | notified _
    | replying _ | replied _ _ | readStarted | timedOut _ => rfl
  unfold dispatchedViews
  rw [hnone]
  rfl

theorem dispatchedViews_callbacks (cbs : List Callback) :
    dispatchedViews (cbs.map .callback) = [] := by
  have hnone : (cbs.map Obs.callback).filterMap Obs.request = [] := by
    rw [List.filterMap_eq_nil_iff, List.forall_mem_map]
    exact fun _ _ => rfl
  unfold dispatchedViews
  rw [hnone]
  rfl

namespace HttpConnection

variable {E : Externals} {sent : List Sent} {ps : List Bytes} {bytes : Bytes}
variable {s t : Session E.parser.State} {ev : Event}

/-- The parser has followed the stream so far. What has been made of the message that is
under way stands in the connection. -/
def Live (sent : List Sent) (ps : List Bytes) (s : Session E.parser.State) : Prop :=
  ∃ cbs st part, E.parser.feed ps = some (cbs, st) ∧
    Progress sent ps.flatten.length cbs part ∧ s.conn.parser = some st ∧
    (part ≠ [] → s.exchange = .idle ∧ ∃ c0 c : Connection E.parser.State,
      Connection.Delivers E.parser.parseUrl c0 part c ∧ s.conn = { c with parser := some st })

/-- The parser has been stopped in a message whose request was not passed on. -/
def Dead (sent : List Sent) (ps : List Bytes) (s : Session E.parser.State) : Prop :=
  s.conn.parser = none ∧ ∃ a m b, sent = a ++ m :: b ∧
    a <+: whole Sent.size sent ps.flatten.length ∧ (dispatchedViews s.log).length ≤ a.length ∧
    ¬ m.Taken E.parser.parseUrl

/-- The invariant of a run that has read the portions `ps`. -/
structure Serving (sent : List Sent) (ps : List Bytes) (s : Session E.parser.State) : Prop where
  settled : Settled s
  tally : Tally E.parser.parseUrl sent ps (dispatchedViews s.log)
  parser : s.fault = none → Live sent ps s ∨ Dead sent ps s

theorem exchange_calm (h : Session.Calm s t) (hx : s.exchange = .idle) : t.exchange = .idle := by
  obtain ⟨l, hl, hcalm⟩ := h.log
  rw [exchange_append hl, hx]
  refine Monitor.after_of_still fun o ho => ?_
  rcases hcalm o ho with rfl | ⟨w, rfl⟩ <;> rfl

theorem dispatchedViews_of_quiet (h : Session.Quiet s t) :
    dispatchedViews t.log = dispatchedViews s.log := by
  obtain ⟨l, hl, hq⟩ := h.log
  rw [hl, dispatchedViews_append, dispatchedViews_quiet hq, List.append_nil]

theorem dispatchedViews_parsed (n : Nat) :
    dispatchedViews ((s.parse E bytes).note (.parsed bytes.length n)).log =
      dispatchedViews s.log := by
  change dispatchedViews (s.log ++ _ ++ [_]) = _
  rw [dispatchedViews_append, dispatchedViews_append, dispatchedViews_callbacks, List.append_nil]
  exact List.append_nil _

theorem dispatchedViews_dispatched {r : Request} (h : Session.Dispatches s t r) :
    dispatchedViews t.log = dispatchedViews s.log ++ [r.view] := by
  obtain ⟨l, l', hlog, hq, hq'⟩ := h.log
  have hone : dispatchedViews (.dispatched r :: l') = r.view :: dispatchedViews l' := rfl
  rw [hlog, dispatchedViews_append, dispatchedViews_append, dispatchedViews_quiet hq,
    List.append_nil, hone, dispatchedViews_quiet hq']

/-! ## Events that bring no bytes -/

theorem Live.of_quiet (h : Live sent ps s) (hq : Session.Quiet s t)
    (hcalm : s.exchange = .idle → Session.Calm s t) : Live sent ps t := by
  obtain ⟨cbs, st, part, hfeed, hprog, hst, hpart⟩ := h
  refine ⟨cbs, st, part, hfeed, hprog, hq.parser.trans hst, fun hp => ?_⟩
  obtain ⟨hx, c0, c, hdel, hconn⟩ := hpart hp
  have hc := hcalm hx
  exact ⟨exchange_calm hc hx, c0, c, hdel, hc.conn.trans hconn⟩

theorem Dead.of_quiet (h : Dead sent ps s) (hq : Session.Quiet s t) : Dead sent ps t := by
  obtain ⟨hst, a, m, b, hsent, ha, hlen, hm⟩ := h
  refine ⟨hq.parser.trans hst, a, m, b, hsent, ha, ?_, hm⟩
  rwa [dispatchedViews_of_quiet hq]

/-- Between two reads nothing but the timer acts on an idle connection. -/
theorem calm_of_idle (h : Settled s) (hd : Disciplined s ev) (hx : s.exchange = .idle)
    (hev : ev.portion = none) (hs : step E s ev = some t) : Session.Calm s t := by
  have hst := h.staged.stage
  rw [hx] at hst
  obtain ⟨-, hw, hp, -⟩ := hst
  obtain ⟨-, hout⟩ := step_outcome (lawful E) hs
  cases hout with
  | calm _ ht => exact ht
  | read bytes ops s' hread _ _ _ =>
    subst hread
    cases hev
  | quiet _ _ htouched =>
    cases ev with
    | write i e => exact absurd hw htouched
    | asyncReplyDone => exact absurd hp (Nat.pos_iff_ne_zero.mp htouched)
    | handler op => exact absurd (hx.symm.trans hd.1) Exchange.noConfusion
    | timer i =>
      cases (Session.stepped_of_step hs).2 with
      | timer i c timer hdeq =>
        have hdec : Session.Calm s { s with timer := timer } :=
          .of_same rfl rfl rfl rfl rfl (fun hn => (Session.noAsyncCall_dequeue hn hdeq).1) rfl
        refine hdec.trans ?_
        change Session.Calm _ (handleTimer c.wait c.code { s with timer := timer })
        cases hcode : c.code with
        | success => exact Session.calm_timedOut _ _
        | operationAborted => exact .refl _
        | failure => exact .refl _
    | handshake _ | read _ _ _ | expire => exact absurd htouched id

/-! ## A read -/

/-- A message that is not taken is not passed on, so it spoils the portion that ends it. -/
theorem Dead.spoils (hurl : ReadsTargets E.parser.parseUrl) (h : Dead sent ps s)
    (hnew : completed Sent.size sent ps.flatten.length bytes.length ≠ []) :
    ¬ WellRead E.parser.parseUrl sent (ps ++ [bytes]) := by
  obtain ⟨-, a, m, b, hsent, ha, -, hm⟩ := h
  have hadd := (whole_add Sent.size sent ps.flatten.length bytes.length).1
  have hrest := (whole_append_rest Sent.size sent
    (ps.flatten.length + bytes.length)).trans hsent
  have hmem : m ∈ whole Sent.size sent (ps.flatten.length + bytes.length) := by
    obtain ⟨a', ha'⟩ := ha
    rw [hadd, ← ha', List.append_assoc, List.append_assoc] at hrest
    have htail := List.append_cancel_left hrest
    rw [hadd, ← ha']
    cases a' with
    | nil =>
      cases hl : completed Sent.size sent ps.flatten.length bytes.length with
      | nil => exact absurd hl hnew
      | cons m' l =>
        rw [hl] at htail
        obtain rfl := (List.cons.inj htail).1
        simp
    | cons m' a' =>
      obtain rfl := (List.cons.inj htail).1
      simp
  rintro ⟨-, hclean⟩
  rw [length_concat] at hclean
  exact hm ((hclean m hmem).taken hurl)

/-- A dead parser rejects what is read. -/
theorem Dead.read (hurl : ReadsTargets E.parser.parseUrl) (h : Dead sent ps s) (hb : bytes ≠ [])
    (hT : Tally E.parser.parseUrl sent ps (dispatchedViews s.log)) (ht : ReadOutcome E bytes s t) :
    Tally E.parser.parseUrl sent (ps ++ [bytes]) (dispatchedViews t.log) ∧
      Dead sent (ps ++ [bytes]) t := by
  have hdead := Connection.httpParse_dead h.1 bytes
  have hlen : (0 : Nat) ≠ bytes.length := fun h0 => hb (List.eq_nil_of_length_eq_zero h0.symm)
  cases ht with
  | crashed f hres _ =>
    rw [hdead] at hres
    cases hres
  | dispatched r hres _ _ _ =>
    rw [hdead] at hres
    exact absurd (Except.ok.inj hres) hlen
  | more hres _ _ =>
    rw [hdead] at hres
    exact absurd (Except.ok.inj hres) hlen
  | rejected n _ _ hq _ =>
    have hviews := (dispatchedViews_of_quiet hq).trans (dispatchedViews_parsed n)
    refine ⟨?_, hq.parser.trans ?_, ?_⟩
    · rw [hviews]
      exact hT.skip hb (h.spoils hurl)
    · change (s.conn.httpParse E.parser bytes).conn.parser = none
      rw [hdead]
      exact h.1
    · obtain ⟨-, a, m, b, hsent, ha, hcount, hm⟩ := h
      refine ⟨a, m, b, hsent, ?_, ?_, hm⟩
      · rw [length_concat, (whole_add Sent.size sent ps.flatten.length bytes.length).1]
        exact ha.trans (List.prefix_append _ _)
      · rwa [hviews]

/-- The callbacks of the read go on where those of the last one ended: together they are
as good as callbacks that a connection is given from the beginning of a message on. -/
structure Resumed (sent : List Sent) (ps : List Bytes) (bytes : Bytes) (s : Session E.parser.State)
    (st st' : E.parser.State) (part' : List Callback) (c0 : Connection E.parser.State) : Prop where
  parser : s.conn.parser = some st
  nparsed : (E.parser.execute st bytes).nparsed = bytes.length
  after : (E.parser.execute st bytes).after = some st'
  follows : ∃ cbs', E.parser.feed (ps ++ [bytes]) = some (cbs', st') ∧
    Progress sent (ps ++ [bytes]).flatten.length cbs' part'
  stop : (s.conn.deliver E.parser.parseUrl (E.parser.execute st bytes).calls).stop =
    (c0.deliver E.parser.parseUrl
      ((completed Sent.size sent ps.flatten.length bytes.length).flatMap Sent.calls ++ part')).stop
  conn : (s.conn.deliver E.parser.parseUrl (E.parser.execute st bytes).calls).conn =
    { (c0.deliver E.parser.parseUrl
        ((completed Sent.size sent ps.flatten.length bytes.length).flatMap Sent.calls ++
          part')).conn with parser := some st }

theorem Live.resumed (h : Live sent ps s) (hcarries : Carries E.parser sent (ps ++ [bytes])) :
    ∃ st st' part' c0, Resumed sent ps bytes s st st' part' c0 := by
  obtain ⟨cbs, st, part, hfeed, hprog, hst, hpart⟩ := h
  obtain ⟨cbs', st', part', hfeed', hprog'⟩ := hcarries.parsed _ List.prefix_rfl
  obtain ⟨cbs0, st0, hfeed0, hn, hafter, hcbs⟩ := feed_concat_iff.mp hfeed'
  obtain ⟨rfl, rfl⟩ := Prod.mk.inj (Option.some.inj (hfeed0.symm.trans hfeed))
  have hconn : ∃ c0 c : Connection E.parser.State,
      Connection.Delivers E.parser.parseUrl c0 part c ∧ s.conn = { c with parser := some st0 } := by
    by_cases hp : part = []
    · subst hp
      refine ⟨s.conn, s.conn, .refl, ?_⟩
      rw [← hst]
    · exact (hpart hp).2
  obtain ⟨c0, c, hdel, hconn⟩ := hconn
  have hcalls : part ++ (E.parser.execute st0 bytes).calls =
      (completed Sent.size sent ps.flatten.length bytes.length).flatMap Sent.calls ++ part' := by
    apply hprog.concat
    rw [← length_concat, ← hcbs]
    exact hprog'
  have hall : c0.deliver _ (part ++ (E.parser.execute st0 bytes).calls) = _ := hdel.deliver_append
  rw [hcalls] at hall
  refine ⟨st0, st', part', c0, hst, hn, hafter, ⟨cbs', hfeed', hprog'⟩, ?_, ?_⟩
  · rw [hconn, Connection.deliver_setParser, hall]
  · rw [hconn, Connection.deliver_setParser, hall]

section Read

variable {st st' : E.parser.State} {part' : List Callback} {c0 : Connection E.parser.State}

/-- If not all callbacks of the read have been made, a message is to blame. -/
theorem Resumed.blame (h : Resumed sent ps bytes s st st' part' c0) (hb : bytes ≠ [])
    (hstop : (s.conn.deliver E.parser.parseUrl (E.parser.execute st bytes).calls).stop ≠
      .finished) :
    (∃ m ∈ completed Sent.size sent ps.flatten.length bytes.length,
      ¬ m.Taken E.parser.parseUrl) ∨
    (part' ≠ [] ∧ ∃ m l, rest Sent.size sent (ps ++ [bytes]).flatten.length = m :: l ∧
      ¬ m.Taken E.parser.parseUrl) := by
  obtain ⟨cbs', -, hprog'⟩ := h.follows
  rw [h.stop] at hstop
  rcases Connection.untaken_of_stop hstop with hm | hm
  · exact Or.inl hm
  · by_cases hp : part' = []
    · subst hp
      cases hnew : completed Sent.size sent ps.flatten.length bytes.length with
      | nil =>
        rw [length_concat] at hprog'
        exact absurd rfl (hprog'.begun_of_none (List.length_pos_iff.mpr hb) hnew)
      | cons m l => exact Or.inl ⟨m, List.mem_cons_self, hm m m.calls rfl⟩
    · obtain ⟨m, l, more, hrest, hcalls, -⟩ := hprog'.next hp
      exact Or.inr ⟨hp, m, l, hrest, hm m more hcalls⟩

/-- No request is passed on when a read has been cut short by a callback. -/
theorem Resumed.cut_short (hurl : ReadsTargets E.parser.parseUrl)
    (h : Resumed sent ps bytes s st st' part' c0) (hb : bytes ≠ [])
    (hstop : (s.conn.deliver E.parser.parseUrl (E.parser.execute st bytes).calls).stop ≠ .finished)
    (hT : Tally E.parser.parseUrl sent ps (dispatchedViews s.log)) :
    Tally E.parser.parseUrl sent (ps ++ [bytes]) (dispatchedViews s.log) ∧
      ∃ a m b, sent = a ++ m :: b ∧
        a <+: whole Sent.size sent (ps ++ [bytes]).flatten.length ∧
        (dispatchedViews s.log).length ≤ a.length ∧ ¬ m.Taken E.parser.parseUrl := by
  have hadd := (whole_add Sent.size sent ps.flatten.length bytes.length).1
  have hsent := whole_append_rest Sent.size sent (ps ++ [bytes]).flatten.length
  have hcount := hT.count
  rcases h.blame hb hstop with ⟨m, hmem, hm⟩ | ⟨hp, m, l, hrest, hm⟩
  · refine ⟨hT.skip hb fun _ => ?_, ?_⟩
    · rintro ⟨-, hclean⟩
      rw [length_concat, hadd] at hclean
      exact hm ((hclean m (List.mem_append_right _ hmem)).taken hurl)
    · obtain ⟨a, b, hsplit⟩ := List.append_of_mem hmem
      rw [length_concat, hadd, hsplit] at hsent
      refine ⟨whole Sent.size sent ps.flatten.length ++ a, m,
        b ++ rest Sent.size sent (ps.flatten.length + bytes.length), hsent.symm.trans ?_, ?_, ?_, hm⟩
      · simp only [List.append_assoc, List.cons_append]
      · rw [length_concat, hadd, hsplit]
        exact (List.prefix_append_right_inj _).mpr (List.prefix_append _ _)
      · rw [List.length_append]
        omega
  · obtain ⟨cbs', -, hprog'⟩ := h.follows
    refine ⟨hT.skip hb (not_wellRead_of_part hb hprog' hp), ?_⟩
    rw [hrest] at hsent
    refine ⟨_, m, l, hsent.symm, List.prefix_rfl, ?_, hm⟩
    rw [length_concat, hadd, List.length_append]
    omega

theorem Resumed.completed_ne_nil (h : Resumed sent ps bytes s st st' part' c0) (hb : bytes ≠ [])
    (hp : part' = []) : completed Sent.size sent ps.flatten.length bytes.length ≠ [] := by
  obtain ⟨cbs', -, hprog'⟩ := h.follows
  rw [length_concat] at hprog'
  exact fun hnew => hprog'.begun_of_none (List.length_pos_iff.mpr hb) hnew hp

/-- What a read leaves all of whose callbacks have been made: the request is complete exactly
if the read ends with a message. -/
theorem Resumed.parsed (h : Resumed sent ps bytes s st st' part' c0) (hb : bytes ≠ [])
    (hstop : (s.conn.deliver E.parser.parseUrl (E.parser.execute st bytes).calls).stop =
      .finished) :
    (s.conn.httpParse E.parser bytes).result = .ok bytes.length ∧
    (s.parse E bytes).conn = { (c0.deliver E.parser.parseUrl
      ((completed Sent.size sent ps.flatten.length bytes.length).flatMap Sent.calls ++
        part')).conn with parser := some st' } ∧
    ((s.parse E bytes).conn.requestComplete = true ↔ part' = []) := by
  obtain ⟨cbs', -, hprog'⟩ := h.follows
  obtain ⟨ph, hfollow, hph⟩ := hprog'.follow
    (completed Sent.size sent ps.flatten.length bytes.length)
  have hout := Connection.deliver_outcome (c := c0) E.parser.parseUrl hfollow (fun hn => absurd rfl hn)
  have hfin := h.stop.symm.trans hstop
  have hparse := Connection.httpParse_finished h.parser bytes hstop
  rw [h.conn, h.nparsed, h.after] at hparse
  have hconn : (s.parse E bytes).conn = _ := congrArg Connection.Parsed.conn hparse
  refine ⟨congrArg Connection.Parsed.result hparse, hconn, ?_⟩
  rw [hconn]
  constructor
  · intro hc
    by_contra hp
    have hflag := hout.busy hfin (fun hidle => hp (hph.mp hidle))
    exact absurd (hflag.symm.trans hc) Bool.noConfusion
  · intro hp
    obtain ⟨m, l, hml⟩ := List.exists_cons_of_ne_nil (h.completed_ne_nil hb hp)
    refine (hout.idle hfin (hph.mpr hp) ?_).1
    rw [hml, List.flatMap_cons]
    exact List.append_ne_nil_of_left_ne_nil
      (List.append_ne_nil_of_left_ne_nil m.calls_ne_nil _) _

/-- The request of the only message that a read has completed. -/
theorem Resumed.own_iff (hurl : ReadsTargets E.parser.parseUrl)
    (h : Resumed sent ps bytes s st st' part' c0)
    (hstop : (s.conn.deliver E.parser.parseUrl (E.parser.execute st bytes).calls).stop = .finished)
    (hp : part' = []) {m : Sent}
    (hm : completed Sent.size sent ps.flatten.length bytes.length = [m]) :
    (c0.deliver E.parser.parseUrl
        ((completed Sent.size sent ps.flatten.length bytes.length).flatMap Sent.calls ++
          part')).conn.request.view = m.own E.parser.parseUrl ↔ m.Clean E.parser.parseUrl := by
  have hdel := Connection.delivers_of_finished (h.stop.symm.trans hstop)
  rw [hp, List.append_nil, hm, List.flatMap_singleton] at hdel ⊢
  have htaken := (Connection.finished_iff_taken c0 m).mp (congrArg Connection.Delivery.stop hdel)
  obtain ⟨c', hdel', hasm⟩ := Connection.message_delivers c0 htaken.1 m.delivered htaken.2
  have hsame : (c0.deliver E.parser.parseUrl m.calls).conn = c' :=
    congrArg Connection.Delivery.conn hdel'
  rw [hsame, hasm.request]
  exact Sent.assembled_own_iff hurl htaken

/-- A read all of whose callbacks have been made passes the request on if it ends with a
message. -/
theorem Resumed.finished (hurl : ReadsTargets E.parser.parseUrl)
    (h : Resumed sent ps bytes s st st' part' c0) (hx : s.exchange = .idle) (hb : bytes ≠ [])
    (hstop : (s.conn.deliver E.parser.parseUrl (E.parser.execute st bytes).calls).stop = .finished)
    (hT : Tally E.parser.parseUrl sent ps (dispatchedViews s.log)) (ht : ReadOutcome E bytes s t) :
    Tally E.parser.parseUrl sent (ps ++ [bytes]) (dispatchedViews t.log) ∧
      Live sent (ps ++ [bytes]) t := by
  obtain ⟨cbs', hfeed', hprog'⟩ := h.follows
  obtain ⟨hres, hconn, hcomplete⟩ := h.parsed hb hstop
  have hparser : (s.parse E bytes).conn.parser = some st' := by rw [hconn]
  cases ht with
  | crashed f hres' _ => cases hres.symm.trans hres'
  | rejected n hres' hn _ _ => exact absurd (Except.ok.inj (hres'.symm.trans hres)) hn
  | dispatched r _ hc hr ht =>
    have hp := hcomplete.mp hc
    have hviews := (dispatchedViews_dispatched ht).trans
      (congrArg (· ++ [r.view]) (dispatchedViews_parsed bytes.length))
    refine ⟨?_, cbs', st', part', hfeed', hprog', ht.parser.trans hparser,
      fun hne => absurd hp hne⟩
    rw [hviews]
    refine hT.take hb (h.completed_ne_nil hb hp) (hprog'.begun.mp hp) fun m hm => ?_
    rw [hr, hconn]
    exact h.own_iff hurl hstop hp hm
  | more _ hc ht =>
    have hp : part' ≠ [] := fun hp => Bool.noConfusion (hc.symm.trans (hcomplete.mpr hp))
    have hviews := (dispatchedViews_of_quiet ht.quiet).trans (dispatchedViews_parsed bytes.length)
    obtain ⟨c1, -, hdel1⟩ := Connection.Delivers.split
      (Connection.delivers_of_finished (h.stop.symm.trans hstop))
    refine ⟨?_, cbs', st', part', hfeed', hprog', ?_, fun _ => ⟨?_, c1, _, hdel1, ?_⟩⟩
    · rw [hviews]
      exact hT.skip hb (not_wellRead_of_part hb hprog' hp)
    · rw [ht.conn]
      exact hparser
    · refine exchange_calm ht (Eq.trans ?_ hx)
      refine exchange_still (s := s) (List.append_assoc s.log _ _) ?_
      exact List.forall_mem_append.mpr ⟨still_callbacks _,
        List.forall_mem_singleton.mpr fun _ => ⟨rfl, trivial⟩⟩
    · rw [ht.conn]
      exact hconn

theorem Live.read (hurl : ReadsTargets E.parser.parseUrl) (h : Live sent ps s)
    (hx : s.exchange = .idle) (hb : bytes ≠ [])
    (hcarries : Carries E.parser sent (ps ++ [bytes]))
    (hT : Tally E.parser.parseUrl sent ps (dispatchedViews s.log)) (ht : ReadOutcome E bytes s t) :
    Tally E.parser.parseUrl sent (ps ++ [bytes]) (dispatchedViews t.log) ∧
      (t.fault = none → Live sent (ps ++ [bytes]) t ∨ Dead sent (ps ++ [bytes]) t) := by
  obtain ⟨st, st', part', c0, hres⟩ := h.resumed hcarries
  by_cases hfin : (s.conn.deliver E.parser.parseUrl (E.parser.execute st bytes).calls).stop =
      .finished
  · obtain ⟨htally, hlive⟩ := hres.finished hurl hx hb hfin hT ht
    exact ⟨htally, fun _ => Or.inl hlive⟩
  · obtain ⟨htally, hblame⟩ := hres.cut_short hurl hb hfin hT
    cases hstop : (s.conn.deliver E.parser.parseUrl (E.parser.execute st bytes).calls).stop with
    | finished => exact absurd hstop hfin
    | fault f =>
      have hparse := Connection.httpParse_fault hres.parser bytes hstop
      have hfault := congrArg Connection.Parsed.result hparse
      cases ht with
      | crashed f' _ ht =>
        subst ht
        refine ⟨?_, fun hn => by cases hn⟩
        rwa [show dispatchedViews ((s.parse E bytes).crash f').log = dispatchedViews s.log from
          (dispatchedViews_append s.log _).trans (by
            rw [dispatchedViews_callbacks, List.append_nil])]
      | rejected _ hres' _ _ _ => cases hfault.symm.trans hres'
      | dispatched _ hres' _ _ _ => cases hfault.symm.trans hres'
      | more hres' _ _ => cases hfault.symm.trans hres'
    | refused =>
      have hparse := Connection.httpParse_refused hres.parser bytes hstop
      have hresult := congrArg Connection.Parsed.result hparse
      have hnone : (s.parse E bytes).conn.parser = none := by
        change (s.conn.httpParse E.parser bytes).conn.parser = none
        rw [hparse]
      have hdead : ∀ n, Session.Quiet ((s.parse E bytes).note (.parsed bytes.length n)) t →
          Tally E.parser.parseUrl sent (ps ++ [bytes]) (dispatchedViews t.log) ∧
            (t.fault = none → Live sent (ps ++ [bytes]) t ∨ Dead sent (ps ++ [bytes]) t) := by
        intro n hq
        have hviews := (dispatchedViews_of_quiet hq).trans (dispatchedViews_parsed n)
        unfold Dead
        rw [hviews]
        exact ⟨htally, fun _ => Or.inr ⟨hq.parser.trans hnone, hblame⟩⟩
      cases ht with
      | crashed _ hres' _ => cases hresult.symm.trans hres'
      | rejected n _ _ hq _ => exact hdead n hq
      | more _ _ ht => exact hdead _ ht.quiet
      | dispatched r _ hc _ _ =>
        obtain ⟨cbs', -, hprog'⟩ := hres.follows
        obtain ⟨ph, hfollow, -⟩ := hprog'.follow
          (completed Sent.size sent ps.flatten.length bytes.length)
        have hout := Connection.deliver_outcome (c := c0) E.parser.parseUrl hfollow
          (fun hn => absurd rfl hn)
        have hflag := hout.refused (hres.stop.symm.trans hstop)
        change (s.conn.httpParse E.parser bytes).conn.requestComplete = true at hc
        rw [hparse, hres.conn] at hc
        exact absurd (hflag.symm.trans hc) Bool.noConfusion

end Read

/-! ## Runs -/

theorem serving_step (hurl : ReadsTargets E.parser.parseUrl) {past : List Event}
    (h : Carries E.parser sent (portions past) → Serving sent (portions past) s)
    (hd : Disciplined s ev) (hs : step E s ev = some t)
    (hcarries : Carries E.parser sent (portions (past ++ [ev]))) :
    Serving sent (portions (past ++ [ev])) t := by
  have hsplit : portions (past ++ [ev]) = portions past ++ ev.portion.toList := by
    unfold portions
    rw [List.filterMap_append]
    cases hev : ev.portion <;> simp [hev]
  have hpast := h (hcarries.of_prefix (by rw [hsplit]; exact List.prefix_append _ _))
  obtain ⟨hf, hout⟩ := step_outcome (lawful E) hs
  have hsettled := step_settled hpast.settled hd hs
  have hkeep : ev.portion = none → Session.Quiet s t → Serving sent (portions (past ++ [ev])) t := by
    intro hev hq
    rw [hsplit, hev, Option.toList_none, List.append_nil]
    refine ⟨hsettled, ?_, fun _ => (hpast.parser hf).imp ?_ fun h => h.of_quiet hq⟩
    · rw [dispatchedViews_of_quiet hq]
      exact hpast.tally
    · exact fun h => h.of_quiet hq fun hx => calm_of_idle hpast.settled hd hx hev hs
  have hnone : (∀ bytes ops, ev ≠ .read .success bytes ops) → ev.portion = none := by
    intro hev
    cases ev with
    | read e bytes ops =>
      cases e with
      | success => exact absurd rfl (hev bytes ops)
      | operationAborted | failure => rfl
    | handshake _ | write _ _ | expire | timer _ | asyncReplyDone | handler _ => rfl
  cases hout with
  | calm hev ht => exact hkeep (hnone hev) ht.quiet
  | quiet hev ht _ => exact hkeep (hnone hev) ht
  | read bytes ops s' hev hb hs' ht =>
    subst hev
    rw [hsplit] at hcarries ⊢
    change Carries E.parser sent (portions past ++ [bytes]) at hcarries
    change Serving sent (portions past ++ [bytes]) t
    have hne : bytes ≠ [] := by
      rintro rfl
      cases hb
    have hx : s.exchange = .idle := by
      cases (Session.stepped_of_step hs).2 with
      | read e bytes ops hr hb =>
        exact hpast.settled.staged.idle_of_starts (Nat.pos_iff_ne_zero.mp hr)
    have hT := hpast.tally
    rw [← dispatchedViews_of_quiet hs'.quiet] at hT
    have hparser := (hpast.parser hf).imp
      (fun h => h.of_quiet hs'.quiet fun _ => hs') (fun h => h.of_quiet hs'.quiet)
    rcases hparser with h | h
    · obtain ⟨htally, hparser⟩ := h.read hurl (exchange_calm hs' hx) hne hcarries hT ht
      exact ⟨hsettled, htally, hparser⟩
    · obtain ⟨htally, hdead⟩ := h.read hurl hne hT ht
      exact ⟨hsettled, htally, fun _ => Or.inr hdead⟩

theorem serving_start (sent : List Sent) (tag : Bytes) (junk : Uninitialised) :
    Serving sent [] (start E tag junk) :=
  ⟨start_settled tag junk, tally_nil,
    fun _ => Or.inl ⟨[], E.parser.init, [], rfl, progress_zero sent, rfl, fun hne => absurd rfl hne⟩⟩

/-- What is passed on are the messages received in whole, in their order, exactly if each
of them ends with a read, its target arrives in pieces that add up, its fields fit into
the arrays and it has no trailers. -/
theorem no_request_lost_iff {E : Externals} (hurl : ReadsTargets E.parser.parseUrl) (tag : Bytes)
    (junk : Uninitialised) {sent : List Sent} {es : List Event} {u : Session E.parser.State}
    (hcarries : Carries E.parser sent (portions es))
    (hd : Along (step E) Disciplined (start E tag junk) es)
    (h : runs (step E) (start E tag junk) es = some u) :
    dispatchedViews u.log = (whole Sent.size sent (portions es).flatten.length).map
        (Sent.own E.parser.parseUrl) ↔
      WellRead E.parser.parseUrl sent (portions es) := by
  have hserving : Carries E.parser sent (portions ([] ++ es)) →
      Serving sent (portions ([] ++ es)) u :=
    history (I := fun past s => Carries E.parser sent (portions past) →
        Serving sent (portions past) s)
      (fun _ _ _ _ h hd hs hcarries => serving_step hurl h hd hs hcarries)
      (fun _ => serving_start sent tag junk) hd h
  exact (hserving hcarries).tally.exact

/-- `GET` of a path. -/
def getSent (path : Bytes) (hpath : path ≠ []) : Sent where
  wire := getBytes path
  target := path
  pieces := getPieces path
  wire_ne_nil := by simp [getBytes, ascii]
  cut := ⟨List.flatten_singleton, List.forall_mem_singleton.mpr hpath⟩
  delivered := List.forall_mem_nil _
  nulFree := List.forall_mem_nil _
  chunked h := absurd rfl h

/-- A parser that knows the messages as one buffer carries them in one portion. -/
theorem tableParser_carries {table : List (Bytes × List MessagePieces)} {sent : List Sent}
    (hne : sent ≠ []) (hblank : (sent.flatMap Sent.wire).all blank = false)
    (h : table.lookup (sent.flatMap Sent.wire) = some (sent.map Sent.pieces)) :
    Carries (tableParser table) sent [sent.flatMap Sent.wire] := by
  have hexecute : (tableParser table).execute () (sent.flatMap Sent.wire) =
      ⟨(sent.map Sent.pieces).flatMap MessagePieces.calls, fun _ => 0, some (),
        (sent.flatMap Sent.wire).length⟩ := by
    dsimp only [tableParser]
    rw [hblank, if_neg Bool.false_ne_true, h]
    cases sent with
    | nil => exact absurd rfl hne
    | cons m ms => rfl
  refine ⟨?_, fun a ha => ?_⟩
  · rw [List.flatten_singleton]
  · rcases List.prefix_cons_iff.mp ha with rfl | ⟨l, rfl, hl⟩
    · exact ⟨[], (), [], rfl, progress_zero sent⟩
    · obtain rfl := List.prefix_nil.mp hl
      refine ⟨sent.flatMap Sent.calls, (), [], ?_, ?_⟩
      · change (tableParser table).feed ([] ++ [sent.flatMap Sent.wire]) = _
        refine feed_concat_iff.mpr ⟨[], (), rfl, ?_, ?_, ?_⟩
        · rw [hexecute]
        · rw [hexecute]
        · rw [hexecute, List.flatMap_map]
          rfl
      · rw [List.flatten_singleton, List.length_flatMap]
        exact progress_total sent

/-- A server whose clients may send `GET /a` and `GET /b` in one packet. -/
def pipelineServer : Externals :=
  ⟨tableParser [(getBytes (ascii "/a") ++ getBytes (ascii "/b"),
    [getPieces (ascii "/a"), getPieces (ascii "/b")])], plainUuids⟩

/-- The two requests. -/
def pipelined : List Sent :=
  [getSent (ascii "/a") (by decide), getSent (ascii "/b") (by decide)]

/-- One read brings both. -/
def pipelinedRead : List Event :=
  [.read .success (getBytes (ascii "/a") ++ getBytes (ascii "/b")) [.create .ok Reply.textHtml 0]]

theorem pipelined_carries :
    Carries pipelineServer.parser pipelined (portions pipelinedRead) :=
  tableParser_carries (List.cons_ne_nil _ _) (by decide +kernel) (by decide +kernel)

theorem no_request_lost_iff_pipelined :
    ∃ u, runs (step pipelineServer) (start pipelineServer [] .zero) pipelinedRead = some u ∧
      (dispatchedViews u.log = (whole Sent.size pipelined (portions pipelinedRead).flatten.length).map
          (Sent.own readRooted) ↔
        WellRead readRooted pipelined (portions pipelinedRead)) := by
  have hrun : ∃ u, runs (step pipelineServer) (start pipelineServer [] .zero) pipelinedRead =
      some u := ⟨_, rfl⟩
  obtain ⟨u, hu⟩ := hrun
  exact ⟨u, hu, no_request_lost_iff readRooted_readsTargets [] .zero pipelined_carries
    (by decide +kernel) hu⟩

/-- Both requests have arrived, and only one is passed on. -/
theorem pipelined_lost :
    Carries pipelineServer.parser pipelined (portions pipelinedRead) ∧
      Along (step pipelineServer) Disciplined (start pipelineServer [] .zero) pipelinedRead ∧
      ∃ u, runs (step pipelineServer) (start pipelineServer [] .zero) pipelinedRead = some u ∧
        dispatchedViews u.log ≠
          (whole Sent.size pipelined (portions pipelinedRead).flatten.length).map
            (Sent.own readRooted) := by
  refine ⟨pipelined_carries, by decide +kernel, ?_⟩
  have hrun : ∃ u, runs (step pipelineServer) (start pipelineServer [] .zero) pipelinedRead =
      some u ∧ (dispatchedViews u.log).length = 1 := ⟨_, rfl, rfl⟩
  obtain ⟨u, hu, hone⟩ := hrun
  refine ⟨u, hu, fun he => ?_⟩
  rw [he, List.length_map] at hone
  have htwo : (whole Sent.size pipelined (portions pipelinedRead).flatten.length).length = 2 := rfl
  omega

end HttpConnection

end CsiHttp.Server
