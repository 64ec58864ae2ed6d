import CsiHttp.Server.KeepAlive

/-!
# A malformed message on `http_connection`

The 400 reply goes through `send_reply`, which asks for the keep-alive decision of the last
message that completed. So it ends the connection only when that message, if there was one,
did not ask for keep-alive.
-/
namespace CsiHttp.Server

open Lib Lib.Text Lib.Runs

/-- The keep-alive decision after a callback that found it at `k`. -/
def Callback.keeps (k : Bool) : Callback → Bool
  | .messageComplete k' => k'
  | _ => k

def keptAfter (k : Bool) (cbs : List Callback) : Bool := cbs.foldl Callback.keeps k

namespace Connection

variable {State : Type} {parseUrl : Bytes → Option UrlFields} {c c' : Connection State}
variable {cb : Callback} {r : Int}

theorem callback_keepAlive (h : c.callback parseUrl cb = .ok (c', r)) :
    c'.keepAlive = cb.keeps c.keepAlive := by
  have hcommit : c.commitPending.keepAlive = c.keepAlive := by
    unfold commitPending
    split <;> rfl
  cases cb with
  | url piece =>
    simp only [callback, onUrl] at h
    split at h <;> cases h <;> rfl
  | headerField piece =>
    simp only [callback, onHeaderField] at h
    split at h <;> cases h
    exact hcommit
  | headerValue piece =>
    simp only [callback, onHeaderValue] at h
    split at h <;> cases h
    rfl
  | headersComplete method contentLength =>
    cases h
    exact hcommit
  | messageBegin | body piece | messageComplete k =>
    cases h
    rfl

theorem httpParse_keepAlive {P : HttpParser} (c : Connection P.State) (buf : Bytes) :
    (c.httpParse P buf).conn.keepAlive = keptAfter c.keepAlive (c.httpParse P buf).made :=
  httpParse_fold (fun c => c.keepAlive) (fun _ _ _ _ h => callback_keepAlive h) (fun _ _ => rfl)
    c buf

end Connection

/-! ## The branch `bad_parse` -/

section BadRequest

variable {State : Type} (E : Externals)

/-- `create` leaves only its own headers, whatever the reply held. -/
theorem create_headers {r r' : Reply} {status : StatusType} {contentType : Bytes}
    (h : r.create status contentType 0 = .ok r') :
    r'.status = status ∧ ∃ v, r'.headers = [⟨ascii "Content-Length", v⟩] ∨
      r'.headers = [⟨ascii "Content-Length", v⟩, ⟨ascii "Content-Type", contentType⟩] := by
  have hbuffer : r.HasBuffer := by
    by_contra hnull
    rw [Reply.create_null hnull] at h
    cases h
  obtain ⟨content, hcontent⟩ := Option.isSome_iff_exists.mp hbuffer
  rw [Reply.create_eq hcontent] at h
  obtain rfl := Except.ok.inj h
  have hkept : Reply.resize r.headers 0 = [] := List.eq_nil_of_length_eq_zero (Reply.length_resize _ _)
  refine ⟨rfl, decimal (toInt32 content.length), ?_⟩
  dsimp only
  rw [hkept, List.nil_append, Reply.ownHeaders]
  split
  · exact Or.inl rfl
  · exact Or.inr rfl

/-- The 400 is created without the header. -/
theorem create_badRequest_headers {r r' : Reply}
    (h : r.create .badRequest Reply.textHtml 0 = .ok r') :
    r'.status = .badRequest ∧ Session.connectionClose ∉ r'.headers := by
  obtain ⟨hstatus, v, hheaders⟩ := create_headers h
  have hname : ∀ name w, ascii "Connection" ≠ name → Session.connectionClose ≠ ⟨name, w⟩ :=
    fun name w hne he => hne (congrArg Header.name he)
  have hlength := hname (ascii "Content-Length") v (by decide)
  have htype := hname (ascii "Content-Type") Reply.textHtml (by decide)
  refine ⟨hstatus, fun hm => ?_⟩
  rcases hheaders with hh | hh
  · rw [hh, List.mem_singleton] at hm
    exact hlength hm
  · rw [hh, List.mem_cons, List.mem_singleton] at hm
    exact hm.elim hlength htype

/-- Without its buffer the reply is not sent. -/
theorem badRequest_crashed {s : Session State} (h : ¬ s.conn.reply.HasBuffer) :
    (s.badRequest E).log = s.log := by
  rw [Session.badRequest_null_eq E h]
  rfl

/-- With it the 400 is written, and it has the header unless the connection is kept alive. -/
theorem badRequest_written {s : Session State} (h : s.conn.reply.HasBuffer)
    (hf : s.fault = none) : ∃ l sent bufs,
    (s.badRequest E).log = s.log ++ l ++ [.replied sent bufs] ∧ .readStarted ∉ l ∧
      sent.status = .badRequest ∧
      (Session.connectionClose ∈ sent.headers ↔ s.conn.keepAlive = false) ∧
      ((s.badRequest E).closing = .closed ↔ s.closing = .closed ∨ s.conn.keepAlive = false) := by
  obtain ⟨r, hr, htx, hbad⟩ := Session.badRequest_eq E h hf
  obtain ⟨hstatus, hnone⟩ := create_badRequest_headers hr
  have hbuffer : (s.setReply r).conn.reply.HasBuffer := by
    change r.txBuffer.isSome = true
    rw [htx]
    exact h
  have hclosing := closing_sendReply E (s.setReply r)
  obtain ⟨l, sent, bufs, hl, hp, hheaders, hsent, -⟩ := (sendReply_sending E (s.setReply r)).written hbuffer
  rw [hbad]
  refine ⟨.replying r :: l, sent, bufs, ?_, ?_, hsent.trans hstatus, ?_, ?_⟩
  · rw [hl, List.append_assoc]
    rfl
  · intro hm
    rcases List.mem_cons.mp hm with hm | hm
    · cases hm
    · exact ((hp _ hm) .closed).2
  · rw [hheaders]
    change _ ∈ r.headers ++ Session.closeHeaders s ↔ _
    unfold Session.closeHeaders
    by_cases hk : s.conn.keepAlive = true
    · rw [if_pos hk, List.append_nil, hk]
      exact iff_of_false hnone Bool.noConfusion
    · rw [if_neg hk]
      exact iff_of_true (List.mem_append_right _ List.mem_cons_self) (Bool.not_eq_true _ ▸ hk)
  · rw [hclosing]
    exact or_congr_right (and_iff_right hbuffer)

end BadRequest

/-! ## Runs -/

/-- Whether bytes have been refused, and no read is to be started after that. -/
def rejections : Monitor Obs Bool where
  next
    | b, .parsed received nparsed => b || received != nparsed
    | b, _ => b
  ok
    | true, .readStarted => False
    | _, _ => True

namespace HttpConnection

variable {E : Externals} {s t : Session E.parser.State} {ev : Event}

/-- `http_parse` consumes fewer bytes than were read. -/
def Rejects (s : Session E.parser.State) (ev : Event) : Prop :=
  ∃ bytes ops n, ev = .read .success bytes ops ∧
    (s.conn.httpParse E.parser bytes).result = .ok n ∧ n ≠ bytes.length

/-- A malformed message ends the connection. -/
structure EndsMalformed (s : Session E.parser.State) (ev : Event) (t : Session E.parser.State) :
    Prop where
  answered : Rejects s ev → ∃ l sent bufs, t.log = s.log ++ l ++ [.replied sent bufs] ∧
    sent.status = .badRequest ∧ Session.connectionClose ∈ sent.headers
  silent : rejections.Accepts false t.log

/-- Bytes are refused only after a message has begun, and when the last message that has
completed, in this read or before, did not ask for keep-alive. -/
def RefusedUnkept (s : Session E.parser.State) (ev : Event) : Prop :=
  ∀ bytes ops n, ev = .read .success bytes ops →
    (s.conn.httpParse E.parser bytes).result = .ok n → n ≠ bytes.length →
    (s.conn.reply.HasBuffer ∨ .messageBegin ∈ (s.conn.httpParse E.parser bytes).made) ∧
      keptAfter s.conn.keepAlive (s.conn.httpParse E.parser bytes).made = false

/-- The invariant of a run. -/
structure Resolved (s : Session E.parser.State) : Prop where
  settled : Settled s
  closing : Sealed Session.reads s
  silent : rejections.Accepts false s.log
  closed : rejections.after false s.log = true → s.closing = .closed

end HttpConnection

theorem rejections_accepts_of_not_read {b : Bool} {l : List Obs} (h : .readStarted ∉ l) :
    rejections.Accepts b l := by
  rw [Monitor.accepts_iff_at]
  rintro a o c rfl
  cases o with
  | readStarted => exact absurd (List.mem_append_right a List.mem_cons_self) h
  | callback _ | parsed _ _ | requestIdLogged _ | methodLogged _ | dispatched _ | deferred
  | notified _ | replying _ | replied _ _ | timedOut _ =>
    cases rejections.after b a <;> exact trivial

/-- The reads of which these are the observations were parsed to the end. -/
def ParsedWhole (l : List Obs) : Prop := ∀ m n, .parsed m n ∈ l → m = n

theorem rejections_after_whole {b : Bool} {l : List Obs} (h : ParsedWhole l) :
    rejections.after b l = b := by
  apply Monitor.after_of_still
  intro o ho
  cases o with
  | parsed m n =>
    obtain rfl := h m n ho
    change (b || m != m) = b
    rw [bne_self_eq_false, Bool.or_false]
  | callback _ | readStarted | requestIdLogged _ | methodLogged _ | dispatched _ | deferred
  | notified _ | replying _ | replied _ _ | timedOut _ => rfl

theorem rejections_accepts_whole {l : List Obs} (h : ParsedWhole l) :
    rejections.Accepts false l := by
  rw [Monitor.accepts_iff_at]
  rintro a o c rfl
  have ha : rejections.after false a = false :=
    rejections_after_whole fun m n hm => h m n (List.mem_append_left _ hm)
  rw [ha]
  cases o <;> exact trivial

theorem ParsedWhole.append {l l' : List Obs} (h : ParsedWhole l) (h' : ParsedWhole l') :
    ParsedWhole (l ++ l') := fun m n hm => (List.mem_append.mp hm).elim (h m n) (h' m n)

theorem parsedWhole_quiet {l : List Obs} (h : ∀ o ∈ l, o.Quiet) : ParsedWhole l :=
  fun _ _ hm => (h _ hm).elim

theorem parsedWhole_callbacks (cbs : List Callback) : ParsedWhole (cbs.map Obs.callback) := by
  intro m n hm
  obtain ⟨cb, -, hcb⟩ := List.mem_map.mp hm
  cases hcb

theorem parsedWhole_singleton (n : Nat) : ParsedWhole [.parsed n n] := by
  intro m k hm
  cases List.mem_singleton.mp hm
  rfl

section Closed

variable {State : Type} {s t : Session State}

/-- After the header has been sent no read appears in the log. -/
theorem not_readStarted_of_closed {l : List Obs} (hl : t.log = s.log ++ l)
    (h : closings.Accepts .keeping t.log) (hc : s.closing = .closed) : .readStarted ∉ l := by
  intro hm
  obtain ⟨a, b, rfl⟩ := List.append_of_mem hm
  rw [hl, ← List.append_assoc] at h
  have hok := h.at
  rw [Monitor.after_append, show closings.after .keeping s.log = .closed from hc,
    closings_after_closed] at hok
  exact hok

end Closed

namespace HttpConnection

variable {E : Externals} {s t : Session E.parser.State} {ev : Event}

/-- A step that refuses no bytes. -/
theorem step_whole (hr : ¬ Rejects s ev) (hs : step E s ev = some t) :
    ∃ l, t.log = s.log ++ l ∧ ParsedWhole l := by
  obtain ⟨-, hout⟩ := step_outcome (lawful E) hs
  cases hout with
  | calm _ ht =>
    obtain ⟨l, hl, hq⟩ := ht.quiet.log
    exact ⟨l, hl, parsedWhole_quiet hq⟩
  | quiet _ ht _ =>
    obtain ⟨l, hl, hq⟩ := ht.log
    exact ⟨l, hl, parsedWhole_quiet hq⟩
  | read bytes ops s' hev _ hs' ht =>
    obtain ⟨l, hl, hq⟩ := hs'.quiet.log
    have hparse : (s'.parse E bytes).log =
        s.log ++ (l ++ (s'.conn.httpParse E.parser bytes).made.map .callback) := by
      change s'.log ++ _ = _
      rw [hl, List.append_assoc]
    have hwhole := (parsedWhole_quiet hq).append
      (parsedWhole_callbacks (s'.conn.httpParse E.parser bytes).made)
    have hnote : ((s'.parse E bytes).note (.parsed bytes.length bytes.length)).log = s.log ++
        (l ++ (s'.conn.httpParse E.parser bytes).made.map .callback ++
          [.parsed bytes.length bytes.length]) := by
      change (s'.parse E bytes).log ++ _ = _
      rw [hparse, List.append_assoc]
    have hwhole' := hwhole.append (parsedWhole_singleton bytes.length)
    cases ht with
    | crashed f _ ht =>
      subst ht
      exact ⟨_, hparse, hwhole⟩
    | rejected n hres hn _ _ =>
      rw [hs'.conn] at hres
      exact absurd ⟨bytes, ops, n, hev, hres, hn⟩ hr
    | more _ _ ht =>
      obtain ⟨l', hl', hq'⟩ := ht.quiet.log
      refine ⟨_, ?_, hwhole'.append (parsedWhole_quiet hq')⟩
      rw [hl', hnote, List.append_assoc]
    | dispatched r _ _ _ ht =>
      obtain ⟨l1, l2, hl', hq1, hq2⟩ := ht.log
      have hrest : ParsedWhole (l1 ++ .dispatched r :: l2) := by
        intro m n hm
        rcases List.mem_append.mp hm with hm | hm
        · exact (hq1 _ hm).elim
        · rcases List.mem_cons.mp hm with hm | hm
          · cases hm
          · exact (hq2 _ hm).elim
      refine ⟨_, ?_, hwhole'.append hrest⟩
      rw [hl', hnote, List.append_assoc, List.append_assoc]

/-- The connection when it turns to the branch `bad_parse`. -/
def refusing (E : Externals) (s : Session E.parser.State) (bytes : Bytes) (n : Nat) :
    Session E.parser.State :=
  (({ s with reads := s.reads - 1 } : Session E.parser.State).cancelTimer.parse E bytes).note
    (.parsed bytes.length n)

theorem refusing_log (s : Session E.parser.State) (bytes : Bytes) (n : Nat) :
    (refusing E s bytes n).log = s.log ++
      ((s.conn.httpParse E.parser bytes).made.map .callback ++ [.parsed bytes.length n]) :=
  List.append_assoc _ _ _

theorem refusing_plain (s : Session E.parser.State) (bytes : Bytes) (n : Nat) :
    ∀ o ∈ (s.conn.httpParse E.parser bytes).made.map Obs.callback ++ [.parsed bytes.length n],
      o.Plain := by
  rw [List.forall_mem_append, List.forall_mem_map]
  exact ⟨fun cb _ => plain_callback cb, List.forall_mem_singleton.mpr (plain_parsed _ _)⟩

theorem step_refuses {bytes : Bytes} {ops : List HandlerOp} {n : Nat}
    (hres : (s.conn.httpParse E.parser bytes).result = .ok n) (hn : n ≠ bytes.length)
    (hs : step E s (.read .success bytes ops) = some t) :
    s.fault = none ∧ t = (refusing E s bytes n).badRequest E := by
  obtain ⟨hf, hstep⟩ := Session.stepped_of_step hs
  refine ⟨hf, ?_⟩
  cases hstep with
  | read e bytes ops hr hb =>
    exact readSucceeded_rejected
      (s := ({ s with reads := s.reads - 1 } : Session E.parser.State).cancelTimer) hres hn ops

/-! ### What a refused read leads to -/

/-- Refused bytes end the connection when the condition holds. -/
theorem refused_resolves (h : Resolved s) (hd : Disciplined s ev) (hr : Rejects s ev)
    (hc : RefusedUnkept s ev) (hs : step E s ev = some t) : Resolved t ∧ EndsMalformed s ev t := by
  have hsettled := step_settled h.settled hd hs
  have hsealed := step_sealed h.settled h.closing hs
  obtain ⟨bytes, ops, n, rfl, hres, hn⟩ := hr
  obtain ⟨hbuffer, hkept⟩ := hc bytes ops n rfl hres hn
  obtain ⟨hfault, rfl⟩ := step_refuses hres hn hs
  have hb : (refusing E s bytes n).conn.reply.HasBuffer :=
    (s.conn.httpParse_buffer_iff bytes).mpr hbuffer
  have hk : (refusing E s bytes n).conn.keepAlive = false :=
    (s.conn.httpParse_keepAlive bytes).trans hkept
  obtain ⟨l, sent, bufs, hl, hread, hstatus, hclose, hclosing⟩ :=
    badRequest_written E hb hfault
  have hlog : ((refusing E s bytes n).badRequest E).log = s.log ++
      ((s.conn.httpParse E.parser bytes).made.map .callback ++ [.parsed bytes.length n] ++ l) ++
      [.replied sent bufs] := by
    rw [hl, refusing_log]
    simp only [List.append_assoc]
  have hnone : .readStarted ∉ (s.conn.httpParse E.parser bytes).made.map Obs.callback ++
      [.parsed bytes.length n] ++ l ++ [.replied sent bufs] := by
    intro hm
    rcases List.mem_append.mp hm with hm | hm
    · rcases List.mem_append.mp hm with hm | hm
      · exact (refusing_plain s bytes n _ hm .closed).2
      · exact hread hm
    · cases List.mem_singleton.mp hm
  have hsilent : rejections.Accepts false ((refusing E s bytes n).badRequest E).log := by
    rw [hlog, List.append_assoc, Monitor.accepts_append]
    exact ⟨h.silent, rejections_accepts_of_not_read hnone⟩
  refine ⟨⟨hsettled, hsealed, hsilent, fun _ => hclosing.mpr (Or.inr hk)⟩, fun _ => ?_, hsilent⟩
  exact ⟨_, sent, bufs, hlog, hstatus, hclose.mpr hk⟩

/-- A step that refuses no bytes starts a read only if none has been refused before. -/
theorem whole_resolves (h : Resolved s) (hd : Disciplined s ev) (hr : ¬ Rejects s ev)
    (hs : step E s ev = some t) : Resolved t ∧ EndsMalformed s ev t := by
  have hsealed := step_sealed h.settled h.closing hs
  obtain ⟨l, hl, hwhole⟩ := step_whole hr hs
  have hafter : rejections.after false t.log = rejections.after false s.log := by
    rw [hl, Monitor.after_append, rejections_after_whole hwhole]
  have hsilent : rejections.Accepts false t.log := by
    rw [hl, Monitor.accepts_append]
    refine ⟨h.silent, ?_⟩
    cases hx : rejections.after false s.log with
    | false => exact rejections_accepts_whole hwhole
    | true =>
      exact rejections_accepts_of_not_read
        (not_readStarted_of_closed hl hsealed.accepts (h.closed hx))
  refine ⟨⟨step_settled h.settled hd hs, hsealed, hsilent, fun hx => ?_⟩,
    fun hx => absurd hx hr, hsilent⟩
  rw [hafter] at hx
  rw [closing_append hl, h.closed hx, closings_after_closed]

/-- Refused bytes do not end the connection when the condition fails. -/
theorem refused_breaks (hc : ¬ RefusedUnkept s ev) (hs : step E s ev = some t) :
    ¬ EndsMalformed s ev t := by
  unfold RefusedUnkept at hc
  push Not at hc
  obtain ⟨bytes, ops, n, rfl, hres, hn, hc⟩ := hc
  obtain ⟨hfault, rfl⟩ := step_refuses hres hn hs
  intro hends
  obtain ⟨l, sent, bufs, hl, -, hclose⟩ := hends.answered ⟨bytes, ops, n, rfl, hres, hn⟩
  by_cases hb : (refusing E s bytes n).conn.reply.HasBuffer
  · obtain ⟨l', sent', bufs', hl', -, -, hclose', -⟩ := badRequest_written E hb hfault
    have hlast : Obs.replied sent bufs = .replied sent' bufs' := by
      have hx := congrArg List.getLast? (hl.symm.trans hl')
      rw [List.getLast?_concat, List.getLast?_concat] at hx
      exact Option.some.inj hx
    obtain ⟨rfl, -⟩ := Obs.replied.inj hlast
    have hk := hclose'.mp hclose
    apply hc ((s.conn.httpParse_buffer_iff bytes).mp hb)
    exact (s.conn.httpParse_keepAlive bytes).symm.trans hk
  · rw [badRequest_crashed E hb, refusing_log, ← List.append_assoc] at hl
    have hx := congrArg List.getLast? hl
    rw [List.getLast?_concat, List.getLast?_concat] at hx
    cases Option.some.inj hx

theorem step_resolves (h : Resolved s) (hd : Disciplined s ev) (hc : RefusedUnkept s ev)
    (hs : step E s ev = some t) : Resolved t ∧ EndsMalformed s ev t := by
  by_cases hr : Rejects s ev
  · exact refused_resolves h hd hr hc hs
  · exact whole_resolves h hd hr hs

theorem start_resolved (tag : Bytes) (junk : Uninitialised) : Resolved (start E tag junk) :=
  ⟨start_settled tag junk, start_sealed tag junk, ⟨trivial, trivial⟩, fun h => nomatch h⟩

/-- In a run with disciplined handlers every malformed message ends the connection exactly if
bytes are refused only after a message has begun and, when the last completed message, if
any, did not ask for keep-alive. -/
theorem malformed_ends_iff (E : Externals) (tag : Bytes) (junk : Uninitialised) {es : List Event}
    {u : Session E.parser.State} (hd : Along (step E) Disciplined (start E tag junk) es)
    (h : runs (step E) (start E tag junk) es = some u) :
    Steps (step E) EndsMalformed (start E tag junk) es ↔
      Along (step E) RefusedUnkept (start E tag junk) es := by
  have hstep : ∀ s ev t, Resolved s → Disciplined s ev → RefusedUnkept s ev →
      step E s ev = some t → Resolved t ∧ EndsMalformed s ev t :=
    fun _ _ _ hs hd hc ht => step_resolves hs hd hc ht
  have hbreak : ∀ s ev t, Resolved s → Disciplined s ev → ¬ RefusedUnkept s ev →
      step E s ev = some t → ¬ EndsMalformed s ev t := fun _ _ _ _ _ hc ht => refused_breaks hc ht
  exact steps_iff_along hstep hbreak (start_resolved tag junk) hd h

/-- A request that is answered, and then a byte with which no request begins. -/
def keptThenRefused : List Event :=
  [.read .success (getBytes (ascii "/")) [.create .ok Reply.textHtml 0], .write 0 .success,
    .read .success (ascii "?") []]

theorem malformed_ends_iff_kept :
    Steps (step getServer) EndsMalformed (start getServer [] .zero) keptThenRefused ↔
      Along (step getServer) RefusedUnkept (start getServer [] .zero) keptThenRefused := by
  have hrun : ∃ u, runs (step getServer) (start getServer [] .zero) keptThenRefused = some u :=
    ⟨_, rfl⟩
  obtain ⟨u, hu⟩ := hrun
  exact malformed_ends_iff getServer [] .zero (by decide +kernel) hu

/-- The 400 is sent without the header, since the answered request asked for keep-alive, and
the next read is started. -/
theorem kept_not_ended :
    Along (step getServer) Disciplined (start getServer [] .zero) keptThenRefused ∧
      ¬ Steps (step getServer) EndsMalformed (start getServer [] .zero) keptThenRefused ∧
      ∃ s, runs (step getServer) (start getServer [] .zero) (keptThenRefused ++ [.write 0 .success]) =
        some s ∧ s.reads = 1 := by
  refine ⟨by decide +kernel, fun hsteps => ?_, ⟨_, rfl, rfl⟩⟩
  obtain ⟨s, hs, t, ht, hc⟩ : ∃ s, runs (step getServer) (start getServer [] .zero)
      (keptThenRefused.take 2) = some s ∧ ∃ t, step getServer s (.read .success (ascii "?") []) =
        some t ∧ s.conn.keepAlive = true ∧
          s.conn.httpParse getServer.parser (ascii "?") = ⟨{ s.conn with parser := none }, [], .ok 0⟩ :=
    ⟨_, rfl, _, rfl, rfl, rfl⟩
  have hlast := ((along_append hs).mp hsteps).2.1 t ht
  refine refused_breaks (fun hcond => ?_) ht hlast
  have hkept := (hcond (ascii "?") [] 0 rfl (congrArg Connection.Parsed.result hc.2) (by decide)).2
  rw [hc.2] at hkept
  exact Bool.noConfusion (hc.1.symm.trans hkept)

end HttpConnection

end CsiHttp.Server
