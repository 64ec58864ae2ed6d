import CsiHttp.Lib.Monitor
import CsiHttp.Server.Rejection

/-!
# The method in the log

Neither the constructor of `request_t` nor `reset` assigns `_method`; only `on_headers_complete`
does. Both log lines show the method, the one of `handle_read` for a message that is complete, the
one of `send_reply` also for the 400 to a message that failed, perhaps before its headers ended.
-/
namespace CsiHttp.Server

open Lib Lib.Text Lib.Runs

/-- The method after a callback that found it at `m`. -/
def Callback.assigns (m : Option Nat) : Callback → Option Nat
  | .headersComplete k _ => some k
  | _ => m

/-- What has been assigned to the method, and what is to be shown of it: a value that has been
assigned, and one that the table of names has unless the parser has a number past it. -/
def methods : Monitor Obs (Option Nat) where
  next
    | m, .callback cb => cb.assigns m
    | m, _ => m
  ok
    | m, .methodLogged shown =>
      shown = m ∧ ∃ k, m = some k ∧ (k < 26 → (methodToString shown).isSome)
    | _, _ => True

theorem methodToString_isSome {k : Nat} (h : k < 26) : (methodToString (some k)).isSome := by
  have hlen : methodStrings.length = 26 := by decide
  rw [methodToString, Option.bind_some, List.getElem?_eq_getElem (by omega)]
  rfl

/-- A parser that completes a message, or is past its headers, has reported its method. -/
theorem Phase.assigns_of_next {ph q : Phase} {cb : Callback} {b : Bool} {m : Option Nat}
    (h : ph.next cb = some q) (hm : ph = .content ∨ b = true → m ≠ none)
    (hq : q = .content ∨ cb.completes b = true) : cb.assigns m ≠ none := by
  cases cb with
  | headersComplete k n => exact Option.some_ne_none k
  | messageBegin =>
    cases ph with
    | idle =>
      cases h
      cases hq with
      | inl hcontent => cases hcontent
      | inr hcomplete => cases hcomplete
    | head => cases h
    | content => cases h
  | messageComplete k =>
    cases ph with
    | idle => cases h
    | head => cases h
    | content => exact hm (Or.inl rfl)
  | url piece =>
    cases ph with
    | idle => cases h
    | head =>
      cases h
      exact hm (hq.imp_left (fun hcontent => by cases hcontent))
    | content => cases h
  | headerField piece | headerValue piece =>
    cases ph with
    | idle => cases h
    | head =>
      cases h
      exact hm (hq.imp_left (fun hcontent => by cases hcontent))
    | content => exact hm (Or.inl rfl)
  | body piece =>
    cases ph with
    | idle => cases h
    | head => cases h
    | content => exact hm (Or.inl rfl)

theorem foldl_assigns_ne_none (m : Option Nat) (cbs : List Callback) :
    cbs.foldl Callback.assigns m ≠ none ↔ m ≠ none ∨ ∃ k n, .headersComplete k n ∈ cbs := by
  induction cbs generalizing m with
  | nil => simp
  | cons cb cbs ih =>
    rw [List.foldl_cons, ih]
    cases cb with
    | headersComplete k n =>
      exact iff_of_true (Or.inl (Option.some_ne_none k)) (Or.inr ⟨k, n, List.mem_cons_self⟩)
    | messageBegin | url _ | headerField _ | headerValue _ | body _ | messageComplete _ =>
      simp [Callback.assigns]

namespace Connection

section Callbacks

variable {State : Type} {parseUrl : Bytes → Option UrlFields} {c c' : Connection State}
variable {cb : Callback} {cbs : List Callback} {r : Int}

theorem callback_method (h : c.callback parseUrl cb = .ok (c', r)) :
    c'.request.method = cb.assigns c.request.method := by
  have hcommit : c.commitPending.request.method = c.request.method := by
    unfold commitPending
    split
    · rfl
    · rfl
  cases cb with
  | url piece =>
    simp only [callback, onUrl] at h
    split at h
    · cases h
      rfl
    · cases h
      rfl
  | headerField piece =>
    simp only [callback, onHeaderField] at h
    split at h
    · cases h
      exact hcommit
    · cases h
  | headerValue piece =>
    simp only [callback, onHeaderValue] at h
    split at h
    · cases h
      rfl
    · cases h
  | messageBegin | headersComplete k n | body piece | messageComplete k =>
    cases h
    rfl

/-- Once a message is complete or past its headers, its method has been assigned. -/
theorem deliver_received (parseUrl : Bytes → Option UrlFields) {ph ph' : Phase}
    (hf : ph.follow cbs = some ph')
    (hm : ph = .content ∨ c.requestComplete = true → c.request.method ≠ none)
    (hd : (c.deliver parseUrl cbs).stop = .finished ∧ ph' = .content ∨
      (c.deliver parseUrl cbs).conn.requestComplete = true) :
    (c.deliver parseUrl cbs).conn.request.method ≠ none := by
  induction cbs generalizing c ph with
  | nil =>
    obtain rfl := Option.some.inj hf
    exact hm (hd.imp_left And.right)
  | cons cb cbs ih =>
    obtain ⟨q, hq, hf⟩ := Phase.follow_cons_iff.mp hf
    cases hcb : c.callback parseUrl cb with
    | error f =>
      rw [deliver_cons_error hcb] at hd ⊢
      exact hm (Or.inr (hd.resolve_left (fun hstop => by cases hstop.1)))
    | ok p =>
      obtain ⟨c1, r⟩ := p
      have hm1 : q = .content ∨ c1.requestComplete = true → c1.request.method ≠ none := by
        rw [callback_method hcb, (callback_frame hcb).complete]
        exact Phase.assigns_of_next hq hm
      by_cases hr : r = 0
      · subst hr
        rw [deliver_cons_ok hcb] at hd ⊢
        exact ih hf hm1 hd
      · rw [deliver_cons_refused hcb hr] at hd ⊢
        exact hm1 (Or.inr (hd.resolve_left (fun hstop => by cases hstop.1)))

end Callbacks

variable {P : HttpParser} {phase : P.State → Phase} {c : Connection P.State}

theorem httpParse_method (c : Connection P.State) (buf : Bytes) :
    (c.httpParse P buf).conn.request.method =
      (c.httpParse P buf).made.foldl Callback.assigns c.request.method :=
  httpParse_fold (fun c => c.request.method) (fun _ _ _ _ h => callback_method h)
    (fun _ _ => rfl) c buf

theorem httpParse_assigned_iff (c : Connection P.State) (buf : Bytes) :
    (c.httpParse P buf).conn.request.method ≠ none ↔
      c.request.method ≠ none ∨ ∃ k n, .headersComplete k n ∈ (c.httpParse P buf).made := by
  rw [httpParse_method]
  exact foldl_assigns_ne_none _ _

/-- The message is complete or past its headers. -/
def Received (phase : P.State → Phase) (c : Connection P.State) : Prop :=
  c.requestComplete = true ∨ ∃ st, c.parser = some st ∧ phase st = .content

theorem httpParse_received (hP : P.Documented phase)
    (hm : c.Received phase → c.request.method ≠ none) {buf : Bytes} {n : Nat}
    (hres : (c.httpParse P buf).result = .ok n)
    (hreceived : (c.httpParse P buf).conn.Received phase) :
    (c.httpParse P buf).conn.request.method ≠ none := by
  cases hc : c.parser with
  | none =>
    rw [httpParse_dead hc] at hreceived ⊢
    exact hm hreceived
  | some st =>
    obtain ⟨ph, hf, hafter⟩ := hP.ordered st buf
    have hm' : phase st = .content ∨ c.requestComplete = true → c.request.method ≠ none := by
      intro hor
      cases hor with
      | inl hcontent => exact hm (Or.inr ⟨st, hc, hcontent⟩)
      | inr hcomplete => exact hm (Or.inl hcomplete)
    have hd := deliver_received P.parseUrl hf hm'
    cases hstop : (c.deliver P.parseUrl (P.execute st buf).calls).stop with
    | fault f =>
      rw [httpParse_fault hc buf hstop] at hres
      cases hres
    | refused =>
      rw [httpParse_refused hc buf hstop] at hreceived ⊢
      cases hreceived with
      | inl hcomplete => exact hd (Or.inr hcomplete)
      | inr hcontent =>
        obtain ⟨st', hst', -⟩ := hcontent
        cases hst'
    | finished =>
      rw [httpParse_finished hc buf hstop] at hreceived ⊢
      cases hreceived with
      | inl hcomplete => exact hd (Or.inr hcomplete)
      | inr hcontent =>
        obtain ⟨st', hst', hphase⟩ := hcontent
        exact hd (Or.inl ⟨hstop, (hafter st' hst').symm.trans hphase⟩)

end Connection

/-! ## Sessions -/

/-- An observation that is no callback, and shows the method, if it does, as `m`. -/
def Obs.Shows (m : Option Nat) : Obs → Prop
  | .callback _ => False
  | .methodLogged shown => shown = m
  | _ => True

section Shows

variable {State : Type} {s t u : Session State}

/-- The method is kept, and shown as it is. -/
structure Shows (s t : Session State) : Prop where
  method : t.conn.request.method = s.conn.request.method
  log : ∃ l, t.log = s.log ++ l ∧ ∀ o ∈ l, o.Shows s.conn.request.method

theorem Shows.of_same (hm : t.conn.request.method = s.conn.request.method) (hl : t.log = s.log) :
    Shows s t :=
  ⟨hm, [], by rw [hl, List.append_nil], List.forall_mem_nil _⟩

theorem Shows.refl (s : Session State) : Shows s s := .of_same rfl rfl

theorem Shows.trans (h : Shows s t) (h' : Shows t u) : Shows s u := by
  obtain ⟨l, hl, ho⟩ := h.log
  obtain ⟨l', hl', ho'⟩ := h'.log
  refine ⟨h'.method.trans h.method, l ++ l', ?_, ?_⟩
  · rw [hl', hl, List.append_assoc]
  · rw [h.method] at ho'
    exact List.forall_mem_append.mpr ⟨ho, ho'⟩

theorem shows_note (s : Session State) {o : Obs} (ho : o.Shows s.conn.request.method) :
    Shows s (s.note o) :=
  ⟨rfl, [o], rfl, List.forall_mem_singleton.mpr ho⟩

theorem Session.Calm.shows (h : Session.Calm s t) : Shows s t := by
  obtain ⟨l, hl, hcalm⟩ := h.log
  refine ⟨by rw [h.conn], l, hl, ?_⟩
  intro o ho
  obtain hread | htimed := hcalm o ho
  · rw [hread]
    exact trivial
  · obtain ⟨w, rfl⟩ := htimed
    exact trivial

variable (E : Externals)

theorem shows_requestId (s : Session State) (idHeader : Bytes) : Shows s (s.requestId E idHeader) :=
  .of_same (congrArg Request.View.method (Request.fillRequestId_view _ _ _ _)) rfl

theorem shows_requestUuid (s : Session State) (idHeader : Bytes) :
    Shows s (s.requestUuid E idHeader) :=
  .of_same (congrArg Request.View.method (Request.fillRequestUuid_view _ _ _ _)) rfl

theorem shows_kept : Session.KeptBySending E (fun s t : Session State => Shows s t) where
  refl := .refl
  trans := .trans
  crash _ _ := .of_same rfl rfl
  setReply _ _ := .of_same rfl rfl
  requestId := shows_requestId E
  idLogged s := shows_note s trivial
  methodLogged s := shows_note s rfl
  replying s := shows_note s trivial
  setWaiting _ _ := .of_same rfl rfl
  replied _ _ _ := ⟨rfl, [_], rfl, List.forall_mem_singleton.mpr trivial⟩

structure ShowsAsync (A : AsyncReply State) : Prop where
  wait : ∀ s, Shows s (A.waitForAsyncReply s)
  notify : ∀ s, Shows s (A.notifyAsyncReplyDone s)

variable {E} {A : AsyncReply State}

theorem shows_handlerOp (hA : ShowsAsync A) (s : Session State) (op : HandlerOp) :
    Shows s (s.handlerOp E A op) :=
  (shows_kept E).handlerOp hA.wait hA.notify s (fun idHeader _ => shows_requestUuid E s idHeader)

theorem shows_dispatch (hA : ShowsAsync A) {prepare : Session State → Session State}
    (hp : ∀ s, Shows s (prepare s)) (ops : List HandlerOp) (s : Session State) :
    Shows s (s.dispatch E A prepare ops) := by
  have hlogged : Shows s ((prepare s).logRequest E) := (hp s).trans ((shows_kept E).logRequest _)
  refine hlogged.trans ((shows_kept E).handled hA.wait hA.notify _ ?_ ?_ ?_)
  · exact fun s idHeader _ => shows_requestUuid E s idHeader
  · exact fun s => ⟨rfl, [_], rfl, List.forall_mem_singleton.mpr trivial⟩
  · exact fun s => .of_same rfl rfl

/-- What the completion handlers of a transport do to the method. -/
structure Transport.Showing {E : Externals} (T : Transport E.parser.State) : Prop where
  async : ShowsAsync T.async
  read : ∃ prepare enter : Session E.parser.State → Session E.parser.State,
    (∀ s, Shows s (prepare s)) ∧ (∀ s, Session.Calm s (enter s)) ∧
      ∀ bytes ops s, T.handleRead .success bytes ops s =
        (enter s).readSucceeded E T.async prepare bytes ops
  write : ∀ e s, Shows s (T.handleWrite e s)
  wait : ∀ w e s, Shows s (T.handleWait w e s)
  asyncReplyDone : ∀ s, Shows s (T.handleAsyncReplyDone s)

end Shows

theorem HttpConnection.showing (E : Externals) : (HttpConnection.transport E).Showing where
  async :=
    { wait := fun s => (shows_note s (o := .deferred) trivial).trans (.of_same rfl rfl)
      notify := fun s => ((shows_note s (o := .notified _) trivial).trans
        ((shows_kept E).logRequestId _)).trans (.of_same rfl rfl) }
  read := ⟨id, Session.cancelTimer, Shows.refl, Session.calm_cancelTimer, fun _ _ _ => rfl⟩
  write e s := by
    cases e with
    | operationAborted => exact .refl s
    | success =>
      change Shows s (HttpConnection.handleWrite .success s)
      unfold HttpConnection.handleWrite
      dsimp only
      split
      · exact ⟨rfl, [.readStarted], rfl, List.forall_mem_singleton.mpr trivial⟩
      · exact .of_same rfl rfl
    | failure =>
      change Shows s (if s.conn.keepAlive then s else s.cancelTimer)
      split
      · exact .refl s
      · exact .of_same rfl rfl
  wait w e s := by
    cases e with
    | success => exact shows_note s (o := .timedOut w) trivial
    | operationAborted => exact .refl s
    | failure => exact .refl s
  asyncReplyDone s := (Session.calm_cancelTimer s).shows.trans ((shows_kept E).sendReply _)

theorem HttpsConnection.showing (E : Externals) : (HttpsConnection.transport E).Showing where
  async :=
    { wait := fun s => (shows_note s (o := .deferred) trivial).trans (.of_same rfl rfl)
      notify := fun s => ((shows_note s (o := .notified _) trivial).trans
        ((shows_kept E).logRequestId _)).trans (.of_same rfl rfl) }
  read := ⟨fun s => s.requestUuid E Request.defaultIdHeader, id, fun s => shows_requestUuid E s _,
    Session.Calm.refl, fun _ _ _ => rfl⟩
  write e s := by
    cases e with
    | operationAborted => exact .refl s
    | success => exact ⟨rfl, [.readStarted], rfl, List.forall_mem_singleton.mpr trivial⟩
    | failure => exact .refl s
  wait w e s := by
    obtain ⟨handler, epoch⟩ := w
    cases handler with
    | handleTimer =>
      cases e with
      | success => exact shows_note s (o := .timedOut _) trivial
      | operationAborted => exact .refl s
      | failure => exact .refl s
    | handleAsyncCall =>
      cases e with
      | success => exact shows_note s (o := .timedOut _) trivial
      | operationAborted => exact (shows_kept E).sendReply s
      | failure => exact .refl s
  asyncReplyDone s := .refl s

/-! ## Runs -/

section Runs

variable {E : Externals} {phase : E.parser.State → Phase} {T : Transport E.parser.State}
variable {s t : Session E.parser.State} {ev : Event}

/-- A read that `http_parse` does not take whole finds, or brings, the method of a request, unless
no message has begun. -/
def MethodReceived (s : Session E.parser.State) (ev : Event) : Prop :=
  ∀ bytes ops n, ev = .read .success bytes ops →
    (s.conn.httpParse E.parser bytes).result = .ok n → n ≠ bytes.length →
    s.conn.reply.HasBuffer ∨ .messageBegin ∈ (s.conn.httpParse E.parser bytes).made →
    s.conn.request.method ≠ none ∨
      ∃ k m, .headersComplete k m ∈ (s.conn.httpParse E.parser bytes).made

/-- The log has the method of the connection, and shows it only when there is one. -/
structure Told (s : Session E.parser.State) : Prop where
  method : s.conn.request.method = methods.after none s.log
  shown : methods.Accepts none s.log

/-- The invariant of a run. -/
structure Recounted (phase : E.parser.State → Phase) (s : Session E.parser.State) : Prop where
  told : Told s
  received : s.fault = none → s.conn.Received phase → s.conn.request.method ≠ none
  untold : s.fault = none → s.conn.request.method = none → OnlyReads s

theorem methods_next {m : Option Nat} {o : Obs} (ho : o.Shows m) : methods.next m o = m := by
  cases o with
  | callback cb => exact absurd ho id
  | methodLogged _ | parsed _ _ | requestIdLogged _ | dispatched _ | deferred | notified _
  | replying _ | replied _ _ | readStarted | timedOut _ => rfl

/-- A method that has been assigned may be shown. -/
theorem methods_ok {m : Option Nat} {o : Obs} (hm : m ≠ none) (ho : o.Shows m) : methods.ok m o := by
  cases o with
  | methodLogged shown =>
    obtain rfl : shown = m := ho
    obtain ⟨k, rfl⟩ := Option.ne_none_iff_exists'.mp hm
    exact ⟨rfl, k, rfl, methodToString_isSome⟩
  | callback _ | parsed _ _ | requestIdLogged _ | dispatched _ | deferred | notified _
  | replying _ | replied _ _ | readStarted | timedOut _ => exact trivial

theorem Told.shows (h : Told s) (hs : Shows s t) (hm : s.conn.request.method ≠ none) : Told t := by
  obtain ⟨l, hl, ho⟩ := hs.log
  have hstill : methods.after (methods.after none s.log) l = methods.after none s.log := by
    apply Monitor.after_of_still
    intro o hmem
    rw [← h.method]
    exact methods_next (ho o hmem)
  constructor
  · rw [hs.method, hl, Monitor.after_append, hstill]
    exact h.method
  · rw [hl, Monitor.accepts_append]
    refine ⟨h.shown, ?_⟩
    apply Monitor.accepts_of_still
    intro o hmem
    rw [← h.method]
    exact ⟨methods_next (ho o hmem), methods_ok hm (ho o hmem)⟩

/-- Observations that neither assign nor show a method change nothing. -/
theorem Told.aside {l : List Obs} (h : Told s)
    (hm : t.conn.request.method = s.conn.request.method) (hl : t.log = s.log ++ l)
    (ho : ∀ m, ∀ o ∈ l, methods.next m o = m ∧ methods.ok m o) : Told t := by
  constructor
  · rw [hm, hl, Monitor.after_append, Monitor.after_of_still (fun o hmem => (ho _ o hmem).1)]
    exact h.method
  · rw [hl, Monitor.accepts_append]
    exact ⟨h.shown, Monitor.accepts_of_still (ho _)⟩

theorem Told.calm (h : Told s) (hs : Session.Calm s t) : Told t := by
  obtain ⟨l, hl, hcalm⟩ := hs.log
  refine h.aside (by rw [hs.conn]) hl ?_
  intro m o hmem
  obtain hread | htimed := hcalm o hmem
  · rw [hread]
    exact ⟨rfl, trivial⟩
  · obtain ⟨w, rfl⟩ := htimed
    exact ⟨rfl, trivial⟩

theorem methods_callbacks (m : Option Nat) (cbs : List Callback) :
    methods.after m (cbs.map .callback) = cbs.foldl Callback.assigns m ∧
      methods.Accepts m (cbs.map .callback) := by
  induction cbs generalizing m with
  | nil => exact ⟨rfl, trivial⟩
  | cons cb cbs ih =>
    obtain ⟨hafter, haccepts⟩ := ih (cb.assigns m)
    exact ⟨hafter, trivial, haccepts⟩

/-- The callbacks of a read tell the method that they assign. -/
theorem Told.parse (h : Told s) (bytes : Bytes) : Told (s.parse E bytes) := by
  obtain ⟨hafter, haccepts⟩ :=
    methods_callbacks (methods.after none s.log) (s.conn.httpParse E.parser bytes).made
  constructor
  · show (s.conn.httpParse E.parser bytes).conn.request.method =
      methods.after none (s.log ++ (s.conn.httpParse E.parser bytes).made.map .callback)
    rw [Monitor.after_append, hafter, Connection.httpParse_method, h.method]
  · show methods.Accepts none (s.log ++ (s.conn.httpParse E.parser bytes).made.map .callback)
    rw [Monitor.accepts_append]
    exact ⟨h.shown, haccepts⟩

theorem Told.parsed (h : Told s) (bytes : Bytes) (n : Nat) :
    Told ((s.parse E bytes).note (.parsed bytes.length n)) := by
  refine (h.parse bytes).aside rfl rfl ?_
  intro m o ho
  rw [List.mem_singleton.mp ho]
  exact ⟨rfl, trivial⟩

theorem Recounted.calm (h : Recounted phase s) (hs : Session.Calm s t) : Recounted phase t where
  told := h.told.calm hs
  received hf := by
    rw [hs.conn]
    exact h.received (hs.fault.symm.trans hf)
  untold hf hm := by
    rw [hs.conn] at hm
    exact (h.untold (hs.fault.symm.trans hf) hm).calm hs

/-- Once the method has been assigned, nothing goes wrong any more. -/
theorem recounted_of_shows (h : Told s) (hs : Shows s t) (hm : s.conn.request.method ≠ none) :
    Recounted phase t := by
  have hm' : t.conn.request.method ≠ none := by rwa [hs.method]
  exact ⟨h.shows hs hm, fun _ _ => hm', fun _ hnone => absurd hnone hm'⟩

theorem recounted_crash (h : Told s) (f : Fault) : Recounted phase (s.crash f) where
  told := h.aside (l := []) rfl (List.append_nil _).symm
    (fun _ _ ho => absurd ho List.not_mem_nil)
  received hf := by cases hf
  untold hf := by cases hf

/-- Every branch of `handle_read`. -/
theorem recounted_readSucceeded {A : AsyncReply E.parser.State}
    {prepare : Session E.parser.State → Session E.parser.State} {bytes : Bytes}
    {ops : List HandlerOp} (hP : E.parser.Documented phase) (hA : ShowsAsync A)
    (hp : ∀ s, Shows s (prepare s)) (h : Recounted phase s) (hf : s.fault = none)
    (hc : MethodReceived s (.read .success bytes ops)) :
    Recounted phase (s.readSucceeded E A prepare bytes ops) := by
  have htold := h.told.parsed (E := E) bytes
  cases hres : (s.conn.httpParse E.parser bytes).result with
  | error f =>
    have hcrash : s.readSucceeded E A prepare bytes ops = (s.parse E bytes).crash f := by
      unfold Session.readSucceeded
      rw [hres]
    rw [hcrash]
    exact recounted_crash (h.told.parse bytes) f
  | ok n =>
    by_cases hn : n = bytes.length
    · subst hn
      by_cases hcomplete : (s.conn.httpParse E.parser bytes).conn.requestComplete = true
      · rw [readSucceeded_completed hres hcomplete]
        apply recounted_of_shows (htold _) (shows_dispatch hA hp ops _)
        exact Connection.httpParse_received hP (h.received hf) hres (Or.inl hcomplete)
      · rw [readSucceeded_more hres hcomplete]
        refine Recounted.calm ⟨htold _, ?_, ?_⟩ (Session.calm_readMore _)
        · exact fun _ hreceived =>
            Connection.httpParse_received hP (h.received hf) hres hreceived
        · intro _ hnone
          have hbefore : s.conn.request.method = none := by
            by_contra hm
            exact (Connection.httpParse_assigned_iff s.conn bytes).mpr (Or.inl hm) hnone
          have honly := h.untold hf hbefore
          exact ⟨honly.writes, honly.posted, honly.lent, honly.timer⟩
    · rw [readSucceeded_rejected hres hn]
      by_cases hm : (s.conn.httpParse E.parser bytes).conn.request.method = none
      · have hnull : ¬ (s.conn.httpParse E.parser bytes).conn.reply.HasBuffer := by
          intro hbuffer
          have hbegun := (Connection.httpParse_buffer_iff s.conn bytes).mp hbuffer
          have hassigned := hc bytes ops n rfl hres hn hbegun
          exact (Connection.httpParse_assigned_iff s.conn bytes).mpr hassigned hm
        rw [Session.badRequest_null_eq E hnull]
        exact recounted_crash (htold n) _
      · exact recounted_of_shows (htold n) ((shows_kept E).badRequest _) hm

/-- A step that is neither calm nor a read. -/
theorem shows_step (hT : T.Showing) (htouched : Touches s ev) (hs : s.step E T ev = some t) :
    Shows s t := by
  cases (Session.stepped_of_step hs).2 with
  | handshake e hh => exact absurd htouched id
  | read e bytes ops hr hb => exact absurd htouched id
  | write i e hi =>
    exact .trans (t := { s with writes := s.writes.eraseIdx i }) (.of_same rfl rfl) (hT.write e _)
  | expire hp => exact absurd htouched id
  | timer i c timer hdeq =>
    exact .trans (t := { s with timer := timer }) (.of_same rfl rfl) (hT.wait c.wait c.code _)
  | asyncReplyDone hp =>
    exact .trans (t := { s with posted := s.posted - 1 }) (.of_same rfl rfl) (hT.asyncReplyDone _)
  | handler op hl => exact shows_handlerOp hT.async s op

/-- A successful read, seen from where `http_parse` is called. -/
theorem read_entered (hT : T.Showing) {bytes : Bytes} {ops : List HandlerOp}
    (hs : s.step E T (.read .success bytes ops) = some t) :
    ∃ u prepare, Session.Calm s u ∧ (∀ s, Shows s (prepare s)) ∧
      t = u.readSucceeded E T.async prepare bytes ops := by
  obtain ⟨prepare, enter, hp, henter, hread⟩ := hT.read
  cases (Session.stepped_of_step hs).2 with
  | read _ _ _ hr hb =>
    have hdec : Session.Calm s { s with reads := s.reads - 1 } :=
      .of_same rfl rfl rfl rfl rfl id rfl
    exact ⟨_, prepare, hdec.trans (henter _), hp, hread bytes ops _⟩

theorem recounted_step (hT : T.Lawful) (hS : T.Showing) (hP : E.parser.Documented phase)
    (h : Recounted phase s) (hc : MethodReceived s ev) (hs : s.step E T ev = some t) :
    Recounted phase t := by
  obtain ⟨hf, hout⟩ := step_outcome hT hs
  cases hout with
  | calm _ ht => exact h.calm ht
  | quiet _ _ htouched =>
    have hm : s.conn.request.method ≠ none :=
      fun hnone => (h.untold hf hnone).not_touches ev htouched
    exact recounted_of_shows h.told (shows_step hS htouched hs) hm
  | read bytes ops _ hev _ _ _ =>
    subst hev
    obtain ⟨u, prepare, hu, hp, rfl⟩ := read_entered hS hs
    refine recounted_readSucceeded hP hS.async hp (h.calm hu) (hu.fault.trans hf) ?_
    unfold MethodReceived at hc ⊢
    rwa [hu.conn]

/-! ## A message that fails early -/

theorem sendReply_shows (s : Session E.parser.State) :
    .methodLogged s.conn.request.method ∈ (s.sendReply E).log := by
  have hid := (shows_note s (o := .replying s.conn.reply) trivial).trans ((shows_kept E).logRequestId _)
  have hline : .methodLogged s.conn.request.method ∈
      ((s.note (.replying s.conn.reply)).logRequest E).log := by
    rw [← hid.method]
    exact List.mem_append_right _ List.mem_cons_self
  have hrest := ((Session.quiet_setWaiting ((s.note (.replying s.conn.reply)).logRequest E)
    false).trans (Session.quiet_addClose _)).trans (Session.quiet_startWrite _)
  exact hrest.log_prefix.subset hline

theorem not_accepts_of_shown {l : List Obs} (h : .methodLogged none ∈ l) :
    ¬ methods.Accepts none l := by
  intro haccepts
  obtain ⟨a, b, rfl⟩ := List.append_of_mem h
  obtain ⟨hshown, k, hk, -⟩ := haccepts.at
  rw [hk] at hshown
  cases hshown

/-- The 400 to a message that begins and fails before its method is known shows a value that has
not been assigned. -/
theorem unreceived_breaks (hS : T.Showing) (hc : ¬ MethodReceived s ev)
    (hs : s.step E T ev = some t) : ¬ methods.Accepts none t.log := by
  unfold MethodReceived at hc
  push Not at hc
  obtain ⟨bytes, ops, n, rfl, hres, hn, hbegun, hnone, hmade⟩ := hc
  have hf := (Session.stepped_of_step hs).1
  obtain ⟨u, prepare, hu, -, rfl⟩ := read_entered hS hs
  rw [← hu.conn] at hres hbegun hnone hmade
  have hm : (u.conn.httpParse E.parser bytes).conn.request.method = none := by
    by_contra hassigned
    obtain hbefore | hcall := (Connection.httpParse_assigned_iff u.conn bytes).mp hassigned
    · exact hbefore hnone
    · obtain ⟨k, m, hmem⟩ := hcall
      exact hmade k m hmem
  have hbuffer := (Connection.httpParse_buffer_iff u.conn bytes).mpr hbegun
  obtain ⟨r, -, -, hbad⟩ := Session.badRequest_eq E
    (s := (u.parse E bytes).note (.parsed bytes.length n)) hbuffer (hu.fault.trans hf)
  apply not_accepts_of_shown
  rw [readSucceeded_rejected hres hn, hbad, ← hm]
  exact sendReply_shows (((u.parse E bytes).note (.parsed bytes.length n)).setReply r)

theorem accepts_iff_along (hT : T.Lawful) (hS : T.Showing) (hP : E.parser.Documented phase)
    (h : Recounted phase s) {es : List Event} (hr : runs (Session.step E T) s es = some t) :
    methods.Accepts none t.log ↔ Along (Session.step E T) MethodReceived s es := by
  have hmono : ∀ s ev t, Session.step E T s ev = some t → methods.Accepts none t.log →
      methods.Accepts none s.log := by
    intro s ev t hs haccepts
    obtain ⟨l, hl⟩ := step_log hT hs
    rw [← hl, Monitor.accepts_append] at haccepts
    exact haccepts.1
  rw [← throughout_iff_last (Q := fun s => methods.Accepts none s.log) hmono hr]
  exact throughout_iff_along (fun s hs => hs.told.shown)
    (fun s ev t hs _ hc ht => recounted_step hT hS hP hs hc ht)
    (fun s ev t _ _ hc ht => unreceived_breaks hS hc ht) h (along_of_forall (fun _ _ => trivial) s es)
    hr

end Runs

theorem recounted_new {E : Externals} {phase : E.parser.State → Phase}
    (hP : E.parser.Documented phase) (tag : Bytes) (junk : Uninitialised) :
    Recounted phase (Session.new (.new tag junk E.parser.init)) where
  told := ⟨rfl, trivial⟩
  received _ hreceived := by
    cases hreceived with
    | inl hcomplete => cases hcomplete
    | inr hcontent =>
      obtain ⟨st, hst, hphase⟩ := hcontent
      cases hst
      rw [hP.init_idle] at hphase
      cases hphase
  untold _ _ := ⟨rfl, rfl, rfl, List.forall_mem_nil _, List.forall_mem_nil _⟩

/-- On either transport every method in the log is one that `on_headers_complete` has assigned,
with a name in the table, exactly when no read is rejected that leaves a message begun on the
connection and no headers completed on it. -/
theorem logged_method_iff {E : Externals} {phase : E.parser.State → Phase}
    (hP : E.parser.Documented phase) (tag : Bytes) (junk : Uninitialised) (es : List Event) :
    (∀ u, runs (HttpConnection.step E) (HttpConnection.start E tag junk) es = some u →
      (methods.Accepts none u.log ↔
        Along (HttpConnection.step E) MethodReceived (HttpConnection.start E tag junk) es)) ∧
    (∀ u, runs (HttpsConnection.step E) (HttpsConnection.start E tag junk) es = some u →
      (methods.Accepts none u.log ↔
        Along (HttpsConnection.step E) MethodReceived (HttpsConnection.start E tag junk) es)) := by
  have hnew := recounted_new hP tag junk
  constructor
  · intro u hu
    exact accepts_iff_along (HttpConnection.lawful E) (HttpConnection.showing E) hP
      (hnew.calm (Session.calm_startRead _)) hu
  · intro u hu
    refine accepts_iff_along (HttpsConnection.lawful E) (HttpsConnection.showing E) hP
      (hnew.calm ?_) hu
    exact .of_same rfl rfl rfl rfl rfl id rfl

/-- A parser that finds the start of a message in every buffer, and its last byte wrong. -/
def stumblingParser : HttpParser where
  State := Unit
  init := ()
  execute _ buf :=
    if buf.all blank then ⟨[], fun _ => 0, some (), buf.length⟩
    else ⟨[.messageBegin], fun _ => 0, none, buf.length - 1⟩
  parseUrl := readRooted

theorem stumblingParser_documented : stumblingParser.Documented (fun _ => .idle) where
  init_idle := rfl
  ordered st buf := by
    dsimp only [stumblingParser]
    split
    · exact ⟨.idle, rfl, fun _ _ => rfl⟩
    · refine ⟨.head, rfl, ?_⟩
      intro st' hst'
      cases hst'
  short st buf := by
    dsimp only [stumblingParser]
    split
    · intro h
      cases h
    · rename_i hb
      intro _ hlen
      have hlast : buf.length - 1 = buf.length := hlen
      obtain rfl : buf = [] := List.eq_nil_of_length_eq_zero (by omega)
      exact hb rfl
  skips st buf _ hb := by
    dsimp only [stumblingParser]
    rw [if_pos (List.all_eq_true.mpr hb)]
    exact ⟨rfl, rfl, rfl⟩
  starts st buf _ hb := by
    dsimp only [stumblingParser]
    rw [if_neg (not_all_blank hb)]
    exact Or.inr rfl

/-- A server of such a parser. -/
def stumblingServer : Externals := ⟨stumblingParser, plainUuids⟩

/-- A `G` can begin a method, and no method goes on with `@`. -/
def brokenMethod : List Event := [.read .success (ascii "G@") []]

theorem logged_method_iff_brokenMethod :
    (∀ u, runs (HttpConnection.step stumblingServer) (HttpConnection.start stumblingServer [] .zero)
        brokenMethod = some u →
      (methods.Accepts none u.log ↔ Along (HttpConnection.step stumblingServer) MethodReceived
        (HttpConnection.start stumblingServer [] .zero) brokenMethod)) ∧
    (∀ u, runs (HttpsConnection.step stumblingServer)
        (HttpsConnection.start stumblingServer [] .zero) brokenMethod = some u →
      (methods.Accepts none u.log ↔ Along (HttpsConnection.step stumblingServer) MethodReceived
        (HttpsConnection.start stumblingServer [] .zero) brokenMethod)) :=
  logged_method_iff stumblingParser_documented [] .zero brokenMethod

theorem brokenMethod_shown :
    ∃ u, runs (HttpConnection.step stumblingServer) (HttpConnection.start stumblingServer [] .zero)
      brokenMethod = some u ∧ ¬ methods.Accepts none u.log :=
  ⟨_, rfl, not_accepts_of_shown (by decide)⟩

end CsiHttp.Server
