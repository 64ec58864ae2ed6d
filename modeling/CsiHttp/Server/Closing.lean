import CsiHttp.Server.Stages

/-!
# `Connection: close`

`send_reply` adds the header and the completion of the write acts on it. The monitor
`closings` follows the log up to the reply that carries the header; after it no read may be
started and no request dispatched. `Sealed` ties its state to the keep-alive decision and
to the operations `starts` counts, those that end in a read.
-/
namespace CsiHttp.Server

open Lib Lib.Text

inductive Closing where
  | keeping
  /-- `send_reply` is running. -/
  | sending (reply : Reply)
  /-- It has added the header to a reply that it has written. -/
  | closed
  deriving DecidableEq

def closings : Monitor Obs Closing where
  next
    | .closed, _ => .closed
    | _, .replying r => .sending r
    | .sending r, .replied sent _ =>
      if sent.headers = r.headers ++ [Session.connectionClose] then .closed else .keeping
    | q, _ => q
  ok
    | .closed, .readStarted => False
    | .closed, .dispatched _ => False
    | _, _ => True

def Session.closing {State : Type} (s : Session State) : Closing := closings.after .keeping s.log

/-- Observations that have nothing to do with the end of a connection. -/
def Obs.Plain (o : Obs) : Prop := ∀ q, closings.next q o = q ∧ closings.ok q o

@[simp] theorem closings_next_closed (o : Obs) : closings.next .closed o = .closed := by
  cases o <;> rfl

theorem closings_after_closed (l : List Obs) : closings.after .closed l = .closed := by
  induction l with
  | nil => rfl
  | cons o l ih => rw [Monitor.after_cons, closings_next_closed, ih]

theorem plain_of_ignored {o : Obs} (hr : ∀ r, o ≠ .replying r) (hs : ∀ r bufs, o ≠ .replied r bufs)
    (hd : ∀ r, o ≠ .dispatched r) (hread : o ≠ .readStarted) : o.Plain := by
  intro q
  cases o with
  | replying r => exact absurd rfl (hr r)
  | replied r bufs => exact absurd rfl (hs r bufs)
  | dispatched r => exact absurd rfl (hd r)
  | readStarted => exact absurd rfl hread
  | callback _ | parsed _ _ | requestIdLogged _ | methodLogged _ | deferred | notified _
  | timedOut _ => cases q <;> exact ⟨rfl, trivial⟩

@[simp] theorem plain_callback (cb : Callback) : (Obs.callback cb).Plain :=
  plain_of_ignored (fun _ => Obs.noConfusion) (fun _ _ => Obs.noConfusion)
    (fun _ => Obs.noConfusion) Obs.noConfusion

@[simp] theorem plain_parsed (m n : Nat) : (Obs.parsed m n).Plain :=
  plain_of_ignored (fun _ => Obs.noConfusion) (fun _ _ => Obs.noConfusion)
    (fun _ => Obs.noConfusion) Obs.noConfusion

@[simp] theorem plain_requestIdLogged (id : Bytes) : (Obs.requestIdLogged id).Plain :=
  plain_of_ignored (fun _ => Obs.noConfusion) (fun _ _ => Obs.noConfusion)
    (fun _ => Obs.noConfusion) Obs.noConfusion

@[simp] theorem plain_methodLogged (m : Option Nat) : (Obs.methodLogged m).Plain :=
  plain_of_ignored (fun _ => Obs.noConfusion) (fun _ _ => Obs.noConfusion)
    (fun _ => Obs.noConfusion) Obs.noConfusion

@[simp] theorem plain_deferred : Obs.deferred.Plain :=
  plain_of_ignored (fun _ => Obs.noConfusion) (fun _ _ => Obs.noConfusion)
    (fun _ => Obs.noConfusion) Obs.noConfusion

@[simp] theorem plain_notified (r : Reply) : (Obs.notified r).Plain :=
  plain_of_ignored (fun _ => Obs.noConfusion) (fun _ _ => Obs.noConfusion)
    (fun _ => Obs.noConfusion) Obs.noConfusion

@[simp] theorem plain_timedOut (w : Wait Waiter) : (Obs.timedOut w).Plain :=
  plain_of_ignored (fun _ => Obs.noConfusion) (fun _ _ => Obs.noConfusion)
    (fun _ => Obs.noConfusion) Obs.noConfusion

section Sessions

variable {State : Type} {s t u : Session State} {starts : Session State → Nat}

theorem closing_append {l : List Obs} (hl : t.log = s.log ++ l) :
    t.closing = closings.after s.closing l := by
  unfold Session.closing
  rw [hl, Monitor.after_append]

theorem closings_append {l : List Obs} (hl : t.log = s.log ++ l)
    (h : closings.Accepts .keeping s.log) (hacc : closings.Accepts s.closing l) :
    closings.Accepts .keeping t.log := by
  rw [hl, Monitor.accepts_append]
  exact ⟨h, hacc⟩

/-! ## What goes on beside the reads and the replies -/

structure Aside (s t : Session State) : Prop where
  log : ∃ l, t.log = s.log ++ l ∧ ∀ o ∈ l, o.Plain
  writes : t.writes = s.writes
  reads : t.reads = s.reads
  handshakes : t.handshakes = s.handshakes
  keepAlive : t.conn.keepAlive = s.conn.keepAlive

theorem Aside.of_same (hl : t.log = s.log) (hw : t.writes = s.writes) (hr : t.reads = s.reads)
    (hh : t.handshakes = s.handshakes) (hk : t.conn.keepAlive = s.conn.keepAlive) : Aside s t :=
  ⟨⟨[], by rw [hl, List.append_nil], List.forall_mem_nil _⟩, hw, hr, hh, hk⟩

theorem Aside.refl (s : Session State) : Aside s s := .of_same rfl rfl rfl rfl rfl

theorem Aside.trans (h : Aside s t) (h' : Aside t u) : Aside s u := by
  obtain ⟨l, hl, hp⟩ := h.log
  obtain ⟨l', hl', hp'⟩ := h'.log
  refine ⟨⟨l ++ l', ?_, List.forall_mem_append.mpr ⟨hp, hp'⟩⟩, h'.writes.trans h.writes,
    h'.reads.trans h.reads, h'.handshakes.trans h.handshakes, h'.keepAlive.trans h.keepAlive⟩
  rw [hl', hl, List.append_assoc]

theorem aside_crash (s : Session State) (f : Fault) : Aside s (s.crash f) :=
  .of_same rfl rfl rfl rfl rfl

theorem aside_arm (s : Session State) (ms : Nat) (w : Waiter) : Aside s (s.arm ms w) :=
  .of_same rfl rfl rfl rfl rfl

theorem aside_setWaiting (s : Session State) (b : Bool) : Aside s (s.setWaiting b) :=
  .of_same rfl rfl rfl rfl rfl

theorem aside_cancelTimer (s : Session State) : Aside s s.cancelTimer :=
  .of_same rfl rfl rfl rfl rfl

theorem aside_note (s : Session State) {o : Obs} (ho : o.Plain) : Aside s (s.note o) :=
  ⟨⟨[o], rfl, List.forall_mem_singleton.mpr ho⟩, rfl, rfl, rfl, rfl⟩

theorem Aside.closing (h : Aside s t) : t.closing = s.closing := by
  obtain ⟨l, hl, hp⟩ := h.log
  rw [closing_append hl]
  exact Monitor.after_of_still fun o ho => (hp o ho _).1

theorem Aside.accepts (h : Aside s t) (ha : closings.Accepts .keeping s.log) :
    closings.Accepts .keeping t.log := by
  obtain ⟨l, hl, hp⟩ := h.log
  exact closings_append hl ha (Monitor.accepts_of_still fun o ho => hp o ho _)

theorem aside_kept (E : Externals) : Session.Kept E (fun s t : Session State => Aside s t) where
  refl := .refl
  trans := .trans
  crash := aside_crash
  setReply _ _ := .of_same rfl rfl rfl rfl rfl
  requestId _ _ := .of_same rfl rfl rfl rfl rfl
  idLogged s := aside_note s (plain_requestIdLogged _)
  methodLogged s := aside_note s (plain_methodLogged _)

structure AsideAsync (A : AsyncReply State) : Prop where
  wait : ∀ s, Aside s (A.waitForAsyncReply s)
  notify : ∀ s, Aside s (A.notifyAsyncReplyDone s)

theorem aside_handlerOp {E : Externals} {A : AsyncReply State} (hA : AsideAsync A)
    (s : Session State) (op : HandlerOp) : Aside s (s.handlerOp E A op) :=
  (aside_kept E).handlerOp hA.wait hA.notify s (fun _ _ => .of_same rfl rfl rfl rfl rfl)

theorem aside_handlerOps {E : Externals} {A : AsyncReply State} (hA : AsideAsync A)
    (s : Session State) (ops : List HandlerOp) : Aside s (s.handlerOps E A ops) :=
  (aside_kept E).handlerOps hA.wait hA.notify s (fun _ _ _ => .of_same rfl rfl rfl rfl rfl)

/-! ## The reply -/

/-- What `send_reply` does to a reply that it writes. -/
theorem toBuffers_same {r sent : Reply} {bufs : List Bytes} (h : r.toBuffers = .ok (sent, bufs)) :
    sent.headers = r.headers ∧ sent.status = r.status := by
  unfold Reply.toBuffers at h
  cases hb : r.deref with
  | error f =>
    rw [hb] at h
    cases h
  | ok content =>
    rw [hb] at h
    simp only [Except.map] at h
    split at h <;> cases h <;> exact ⟨rfl, rfl⟩

/-- The headers `send_reply` adds. -/
def Session.closeHeaders (s : Session State) : List Header :=
  if s.conn.keepAlive then [] else [Session.connectionClose]

/-- `send_reply` crashes or leaves a write on its way. -/
structure Sending (s t : Session State) : Prop where
  reads : t.reads = s.reads
  handshakes : t.handshakes = s.handshakes
  posted : t.posted = s.posted
  timer : t.timer = s.timer
  keepAlive : t.conn.keepAlive = s.conn.keepAlive
  crashed : ¬ s.conn.reply.HasBuffer → t.writes = s.writes ∧
    ∃ l, t.log = s.log ++ .replying s.conn.reply :: l ∧ ∀ o ∈ l, o.Plain
  written : s.conn.reply.HasBuffer → ∃ l sent bufs,
    t.log = s.log ++ .replying s.conn.reply :: (l ++ [.replied sent bufs]) ∧ (∀ o ∈ l, o.Plain) ∧
      sent.headers = s.conn.reply.headers ++ s.closeHeaders ∧
      sent.status = s.conn.reply.status ∧ t.writes = s.writes ++ [⟨sent, bufs⟩]

/-- The reply as it is when `send_reply` comes to its buffers. -/
theorem prepared_reply (E : Externals) (s : Session State) :
    ((((s.note (.replying s.conn.reply)).logRequest E).setWaiting false).addClose).conn.keepAlive
        = s.conn.keepAlive ∧
      ((((s.note (.replying s.conn.reply)).logRequest E).setWaiting false).addClose).conn.reply =
        { s.conn.reply with headers := s.conn.reply.headers ++ s.closeHeaders } := by
  unfold Session.addClose Session.closeHeaders
  change (if s.conn.keepAlive = true then _ else _ : Session State).conn.keepAlive = _ ∧
    (if s.conn.keepAlive = true then _ else _ : Session State).conn.reply = _
  by_cases hk : s.conn.keepAlive = true
  · rw [if_pos hk, if_pos hk, List.append_nil]
    exact ⟨rfl, rfl⟩
  · rw [if_neg hk, if_neg hk]
    exact ⟨rfl, rfl⟩

theorem sendReply_sending (E : Externals) (s : Session State) : Sending s (s.sendReply E) := by
  obtain ⟨h1, h2, h3, h4⟩ := sendReply_counts E s
  have hp := sendReply_prepared E s
  have hu := prepared_reply E s
  unfold Session.sendReply at h1 h2 h3 h4 ⊢
  generalize (((s.note (.replying s.conn.reply)).logRequest E).setWaiting false).addClose = u
    at h1 h2 h3 h4 hp hu ⊢
  obtain ⟨hkeep, hreply⟩ := hu
  obtain ⟨id, method, hl⟩ := hp.log
  have hplain : ∀ o ∈ [Obs.requestIdLogged id, Obs.methodLogged method], o.Plain := by simp
  refine ⟨h1, h3, h2, h4, ?_, fun hb => ?_, fun hb => ?_⟩
  · unfold Session.startWrite
    split <;> exact hkeep
  · have hnull : u.conn.reply.toBuffers = .error .nullReplyBuffer := by
      apply Reply.toBuffers_null
      rw [hreply]
      exact hb
    unfold Session.startWrite
    rw [hnull]
    exact ⟨hp.writes, _, hl, hplain⟩
  · have hbuffer : u.conn.reply.HasBuffer := by
      rw [hreply]
      exact hb
    obtain ⟨sent, bufs, hok, -⟩ := Reply.toBuffers_ok hbuffer
    obtain ⟨hheaders, hstatus⟩ := toBuffers_same hok
    unfold Session.startWrite
    rw [hok]
    refine ⟨_, sent, bufs, ?_, hplain, ?_, ?_, ?_⟩
    · change u.log ++ _ = _
      rw [hl, List.append_assoc]
      rfl
    · rw [hheaders, hreply]
    · rw [hstatus, hreply]
    · change u.writes ++ _ = _
      rw [hp.writes]

/-! ## The invariant -/

/-- `starts` counts operations of the socket only. -/
def Counts (starts : Session State → Nat) : Prop :=
  ∀ s t : Session State, t.reads = s.reads → t.handshakes = s.handshakes → starts t = starts s

structure Sealed (starts : Session State → Nat) (s : Session State) : Prop where
  accepts : closings.Accepts .keeping s.log
  /-- Nothing is left that could end in a read, and the decision stands. -/
  silent : s.closing = .closed → starts s = 0 ∧ s.conn.keepAlive = false
  linked : s.writes ≠ [] → s.closing ≠ .closed → s.conn.keepAlive = true

/-- A connection that is not closed and has nothing on its way. -/
structure Unsealed (starts : Session State → Nat) (s : Session State) : Prop where
  accepts : closings.Accepts .keeping s.log
  lives : s.closing ≠ .closed
  starts : starts s = 0
  writes : s.writes = []

theorem Unsealed.sealed (h : Unsealed starts s) : Sealed starts s :=
  ⟨h.accepts, fun hc => absurd hc h.lives, fun hw => absurd h.writes hw⟩

theorem Sealed.aside (h : Sealed starts s) (hst : Counts starts) (ha : Aside s t) :
    Sealed starts t := by
  refine ⟨ha.accepts h.accepts, ?_, ?_⟩
  · rw [ha.closing, hst s t ha.reads ha.handshakes, ha.keepAlive]
    exact h.silent
  · rw [ha.closing, ha.writes, ha.keepAlive]
    exact h.linked

theorem Unsealed.aside (h : Unsealed starts s) (hst : Counts starts) (ha : Aside s t) :
    Unsealed starts t := by
  refine ⟨ha.accepts h.accepts, ?_, (hst s t ha.reads ha.handshakes).trans h.starts,
    ha.writes.trans h.writes⟩
  rw [ha.closing]
  exact h.lives

/-- The write has completed, or an operation of the socket has. -/
theorem Sealed.completed (h : Sealed starts s) (hl : t.log = s.log)
    (hk : t.conn.keepAlive = s.conn.keepAlive) (hs : starts t ≤ starts s)
    (hw : t.writes ≠ [] → s.writes ≠ []) : Sealed starts t := by
  have hc : t.closing = s.closing := by
    unfold Session.closing
    rw [hl]
  refine ⟨hl ▸ h.accepts, fun hclosed => ?_, fun hne => ?_⟩
  · obtain ⟨hz, hkeep⟩ := h.silent (hc ▸ hclosed)
    exact ⟨by omega, hk.trans hkeep⟩
  · rw [hc, hk]
    exact h.linked (hw hne)

theorem Sealed.lives_of_starts (h : Sealed starts s) (hs : starts s ≠ 0) : s.closing ≠ .closed :=
  fun hc => hs (h.silent hc).1

theorem Sealed.lives_of_keepAlive (h : Sealed starts s) (hk : s.conn.keepAlive = true) :
    s.closing ≠ .closed := by
  intro hc
  rw [(h.silent hc).2] at hk
  cases hk

/-- A read may be started on a connection that has not been closed. -/
theorem sealed_startRead (h : closings.Accepts .keeping s.log) (hc : s.closing ≠ .closed)
    (hw : s.writes = []) : Sealed starts s.startRead := by
  have hread : closings.next s.closing .readStarted = s.closing ∧
      closings.ok s.closing .readStarted := by
    cases hx : s.closing with
    | closed => exact absurd hx hc
    | keeping | sending r => exact ⟨rfl, trivial⟩
  have hclosing : s.startRead.closing = s.closing :=
    (closing_append (l := [.readStarted]) rfl).trans hread.1
  refine ⟨closings_append (l := [.readStarted]) rfl h ⟨hread.2, trivial⟩, ?_, fun hne => ?_⟩
  · rw [hclosing]
    exact fun hx => absurd hx hc
  · exact absurd hw hne

theorem closings_ok {o : Obs} (hd : ∀ r, o ≠ .dispatched r) (hr : o ≠ .readStarted) (q : Closing) :
    closings.ok q o := by
  cases o with
  | dispatched r => exact absurd rfl (hd r)
  | readStarted => exact absurd rfl hr
  | callback _ | parsed _ _ | requestIdLogged _ | methodLogged _ | deferred | notified _
  | replying _ | replied _ _ | timedOut _ => cases q <;> exact trivial

theorem closings_next_replying {q : Closing} (hq : q ≠ .closed) (r : Reply) :
    closings.next q (.replying r) = .sending r := by
  cases q with
  | closed => exact absurd rfl hq
  | keeping | sending r => rfl

theorem accepts_sendReply (E : Externals) (h : closings.Accepts .keeping s.log) :
    closings.Accepts .keeping (s.sendReply E).log := by
  have hsend := sendReply_sending E s
  have hreplying : closings.ok s.closing (.replying s.conn.reply) :=
    closings_ok (fun _ => Obs.noConfusion) Obs.noConfusion _
  by_cases hb : s.conn.reply.HasBuffer
  · obtain ⟨l, sent, bufs, hl, hp, -⟩ := hsend.written hb
    have hreplied : ∀ q, closings.ok q (.replied sent bufs) :=
      closings_ok (fun _ => Obs.noConfusion) Obs.noConfusion
    exact closings_append hl h ⟨hreplying, Monitor.accepts_append.mpr
      ⟨Monitor.accepts_of_still fun o ho => hp o ho _, hreplied _, trivial⟩⟩
  · obtain ⟨-, l, hl, hp⟩ := hsend.crashed hb
    exact closings_append hl h ⟨hreplying, Monitor.accepts_of_still fun o ho => hp o ho _⟩

/-- `send_reply` closes a connection exactly if it writes without the keep-alive decision. -/
theorem closing_sendReply (E : Externals) (s : Session State) :
    (s.sendReply E).closing = .closed ↔
      s.closing = .closed ∨ (s.conn.reply.HasBuffer ∧ s.conn.keepAlive = false) := by
  have hsend := sendReply_sending E s
  by_cases hx : s.closing = .closed
  · refine iff_of_true ?_ (Or.inl hx)
    by_cases hb : s.conn.reply.HasBuffer
    · obtain ⟨l, sent, bufs, hl, -⟩ := hsend.written hb
      rw [closing_append hl, hx, closings_after_closed]
    · obtain ⟨-, l, hl, -⟩ := hsend.crashed hb
      rw [closing_append hl, hx, closings_after_closed]
  · rw [or_iff_right hx]
    by_cases hb : s.conn.reply.HasBuffer
    · obtain ⟨l, sent, bufs, hl, hp, hheaders, -⟩ := hsend.written hb
      rw [closing_append hl, Monitor.after_cons, Monitor.after_append, closings_next_replying hx,
        Monitor.after_of_still fun o ho => (hp o ho _).1]
      change (if sent.headers = _ then Closing.closed else Closing.keeping) = _ ↔ _
      rw [hheaders, Session.closeHeaders]
      by_cases hk : s.conn.keepAlive = true
      · rw [if_pos hk, List.append_nil, if_neg (by simp), hk]
        exact iff_of_false Closing.noConfusion (fun h => Bool.noConfusion h.2)
      · rw [if_neg hk, if_pos rfl]
        exact iff_of_true rfl ⟨hb, Bool.not_eq_true _ ▸ hk⟩
    · obtain ⟨-, l, hl, hp⟩ := hsend.crashed hb
      rw [closing_append hl, Monitor.after_cons, closings_next_replying hx,
        Monitor.after_of_still fun o ho => (hp o ho _).1]
      exact iff_of_false Closing.noConfusion (fun h => hb h.1)

theorem sealed_sendReply (E : Externals) (h : Sealed starts s) (hst : Counts starts)
    (hs : starts s = 0) (hw : s.writes = []) : Sealed starts (s.sendReply E) := by
  have hsend := sendReply_sending E s
  refine ⟨accepts_sendReply E h.accepts, fun hc => ?_, fun hne hc => ?_⟩
  · rw [hst _ _ hsend.reads hsend.handshakes, hsend.keepAlive]
    refine ⟨hs, ?_⟩
    rcases (closing_sendReply E s).mp hc with hc | hc
    · exact (h.silent hc).2
    · exact hc.2
  · rw [hsend.keepAlive]
    have hb : s.conn.reply.HasBuffer := by
      by_contra hb
      exact hne ((hsend.crashed hb).1.trans hw)
    by_contra hk
    exact hc ((closing_sendReply E s).mpr (Or.inr ⟨hb, Bool.not_eq_true _ ▸ hk⟩))

/-! ## A read -/

theorem unsealed_badRequest (E : Externals) (h : Unsealed starts s) (hst : Counts starts) :
    Sealed starts (s.badRequest E) := by
  unfold Session.badRequest Session.andThen
  have htake := h.aside hst
    ((aside_kept E).takeReply s (s.conn.reply.create .badRequest Reply.textHtml 0))
  split
  · exact htake.sealed
  · exact sealed_sendReply E htake.sealed hst htake.starts htake.writes

theorem unsealed_readMore (h : Unsealed starts s) (hst : Counts starts) :
    Sealed starts s.readMore := by
  have harm : Unsealed starts (s.arm 5000 .handleTimer) :=
    h.aside hst (aside_arm s _ _)
  exact sealed_startRead harm.accepts harm.lives harm.writes

theorem unsealed_dispatch {E : Externals} {A : AsyncReply State} (hA : AsideAsync A)
    {prepare : Session State → Session State} (hp : ∀ s, Aside s (prepare s))
    (ops : List HandlerOp) (h : Unsealed starts s) (hst : Counts starts) :
    Sealed starts (s.dispatch E A prepare ops) := by
  unfold Session.dispatch Session.handleRequest Session.andThen
  have hlog := h.aside hst ((hp s).trans ((aside_kept E).logRequest _))
  generalize (prepare s).logRequest E = v at hlog ⊢
  have hnext : closings.next v.closing (.dispatched v.conn.request) = v.closing ∧
      closings.ok v.closing (.dispatched v.conn.request) := by
    cases hx : v.closing with
    | closed => exact absurd hx hlog.lives
    | keeping | sending r => exact ⟨rfl, trivial⟩
  have hasked : Unsealed starts (({ v with lent := true } : Session State).note
      (.dispatched v.conn.request)) := by
    refine ⟨closings_append (l := [_]) rfl hlog.accepts ⟨hnext.2, trivial⟩, ?_, ?_, hlog.writes⟩
    rotate_left
    · exact Eq.trans (hst v _ rfl rfl) hlog.starts
    rw [closing_append (s := v) (l := [_]) rfl]
    exact fun hc => hlog.lives (hnext.1.symm.trans hc)
  have hdone := hasked.aside hst (aside_handlerOps (E := E) hA _ ops)
  dsimp only at hdone ⊢
  split
  · exact hdone.sealed
  · split
    · exact (hdone.aside hst (aside_arm _ _ _)).sealed
    · exact sealed_sendReply E hdone.sealed hst hdone.starts hdone.writes

end Sessions

section Reads

variable {E : Externals} {A : AsyncReply E.parser.State} {s : Session E.parser.State}
variable {starts : Session E.parser.State → Nat}
variable {prepare : Session E.parser.State → Session E.parser.State}

/-- The keep-alive decision is taken anew, and the connection may be closed by the reply. -/
theorem unsealed_parse (h : Unsealed starts s) (hst : Counts starts) (bytes : Bytes) :
    Unsealed starts (s.parse E bytes) := by
  have hplain : ∀ o ∈ (s.conn.httpParse E.parser bytes).made.map Obs.callback, o.Plain := by
    rw [List.forall_mem_map]
    exact fun cb _ => plain_callback cb
  refine ⟨closings_append rfl h.accepts (Monitor.accepts_of_still fun o ho => hplain o ho _), ?_,
    ?_, h.writes⟩
  rotate_left
  · exact Eq.trans (hst s _ rfl rfl) h.starts
  rw [closing_append (s := s) rfl, Monitor.after_of_still fun o ho => (hplain o ho _).1]
  exact h.lives

theorem unsealed_readSucceeded (hA : AsideAsync A) (hp : ∀ s, Aside s (prepare s)) (bytes : Bytes)
    (ops : List HandlerOp) (h : Unsealed starts s) (hst : Counts starts) :
    Sealed starts (s.readSucceeded E A prepare bytes ops) := by
  have hparse := unsealed_parse h hst bytes
  unfold Session.readSucceeded
  split
  · exact (hparse.aside hst (aside_crash _ _)).sealed
  · rename_i n _
    have hnote := hparse.aside hst (aside_note _ (plain_parsed bytes.length n))
    dsimp only
    split
    · exact unsealed_badRequest E hnote hst
    · split
      · exact unsealed_dispatch hA hp ops hnote hst
      · exact unsealed_readMore hnote hst

end Reads

end CsiHttp.Server
