import CsiHttp.Service.Desk

/-!
# Answers on one connection

What a planned handler leaves in the reply, and what becomes of it. The reply is fresh whenever a
request is passed on: `on_message_begin` has reset it, or `handle_write` has.
-/
namespace CsiHttp.Service

open Lib Lib.Text Lib.Runs Server

/-- Nothing has been written to the reply since it was constructed or reset. -/
def Fresh (r : Reply) : Prop := r.headers = [] ∧ (r.txBuffer = none ∨ r.txBuffer = some [])

theorem fresh_reset (r : Reply) : Fresh r.reset := ⟨rfl, Or.inr rfl⟩

/-- Neither a request nor a reply, nor the end of a read. -/
def Aside (o : Obs) : Prop := o.Still ∧ ∀ m n, o ≠ .parsed m n

theorem aside_callbacks (cbs : List Callback) : ∀ o ∈ cbs.map Obs.callback, Aside o := by
  intro o ho
  refine ⟨still_callbacks cbs o ho, fun m n hparsed => ?_⟩
  obtain ⟨cb, -, rfl⟩ := List.mem_map.mp ho
  cases hparsed

theorem aside_logged (id : Bytes) (method : Option Nat) :
    ∀ o ∈ [Obs.requestIdLogged id, Obs.methodLogged method], Aside o := by
  intro o ho
  rcases List.mem_pair.mp ho with rfl | rfl <;>
    exact ⟨fun _ => ⟨rfl, trivial⟩, fun _ _ => Obs.noConfusion⟩

section Monitors

variable {expected : Request → Option Answer} {owed : Option Answer} {l : List Obs}

theorem answering_aside {o : Obs} (h : Aside o) :
    (answering expected).next owed o = owed ∧ (answering expected).ok owed o := by
  cases o with
  | dispatched r => exact absurd (h.1 .idle).1 Exchange.noConfusion
  | replying r => exact absurd (h.1 .idle).1 Exchange.noConfusion
  | parsed m n => exact absurd rfl (h.2 m n)
  | callback _ | requestIdLogged _ | methodLogged _ | deferred | notified _ | replied _ _
  | readStarted | timedOut _ => exact ⟨rfl, trivial⟩

theorem answering_asides (h : ∀ o ∈ l, Aside o) :
    (answering expected).after owed l = owed ∧ (answering expected).Accepts owed l :=
  ⟨Monitor.after_of_still fun o ho => (answering_aside (h o ho)).1,
    Monitor.accepts_of_still fun o ho => answering_aside (h o ho)⟩

end Monitors

/-- What is owed at an exchange, when `js` are the answers that timers hold. -/
def Owes (js : List Answer) (lent : Bool) (owed : Option Answer) : Exchange → Prop
  | .idle | .replied => owed = none ∧ js = []
  | .waiting => lent = true ∧ ∃ a, owed = some a ∧ js = [a]
  | .notified r => ∃ a, owed = some a ∧ a.Fits r ∧ js = []
  | .dispatched | .sending _ => False

/-- The law of a connection whose handlers are planned. -/
structure Served (expected : Request → Option Answer) (js : List Answer) {State : Type}
    (s : Session State) : Prop where
  accepts : (answering expected).Accepts none s.log
  fresh : s.exchange = .idle ∨ s.exchange = .waiting → Fresh s.conn.reply
  owes : Owes js s.lent ((answering expected).after none s.log) s.exchange

section Sessions

variable {State : Type} {expected : Request → Option Answer} {js : List Answer}
variable {s t : Session State}

/-- What does not concern the reply. -/
theorem Served.of_aside {l : List Obs} (h : Served expected js s) (hl : t.log = s.log ++ l)
    (haside : ∀ o ∈ l, Aside o) (hr : t.conn.reply = s.conn.reply) (hlent : t.lent = s.lent) :
    Served expected js t := by
  have hx : t.exchange = s.exchange := exchange_still hl fun o ho => (haside o ho).1
  obtain ⟨hafter, hacc⟩ : (answering expected).after ((answering expected).after none s.log) l =
      (answering expected).after none s.log ∧
        (answering expected).Accepts ((answering expected).after none s.log) l :=
    answering_asides haside
  refine ⟨?_, fun hidle => ?_, ?_⟩
  · rw [hl, Monitor.accepts_append]
    exact ⟨h.accepts, hacc⟩
  · rw [hr]
    exact h.fresh (hx ▸ hidle)
  · rw [hx, hlent, hl, Monitor.after_append, hafter]
    exact h.owes

theorem Served.of_same (h : Served expected js s) (hl : t.log = s.log)
    (hr : t.conn.reply = s.conn.reply) (hlent : t.lent = s.lent) : Served expected js t :=
  h.of_aside (hl.trans (List.append_nil _).symm) (List.forall_mem_nil _) hr hlent

variable (E : Externals)

/-- What `send_reply` adds to the log. -/
theorem sendReply_tail (expected : Request → Option Answer) (s : Session State) : ∃ l,
    (s.sendReply E).log = s.log ++ .replying s.conn.reply :: l ∧
      ∀ o ∈ l, ∀ owed, (answering expected).next owed o = owed ∧ (answering expected).ok owed o := by
  obtain ⟨id, method, hl⟩ := (sendReply_prepared E s).log
  unfold Session.sendReply Session.startWrite
  split
  · refine ⟨[.requestIdLogged id, .methodLogged method], hl, fun o ho owed => ?_⟩
    exact answering_aside (aside_logged id method o ho)
  · rename_i r buffers _
    refine ⟨[.requestIdLogged id, .methodLogged method, .replied r buffers], ?_, ?_⟩
    · exact (congrArg (· ++ [.replied r buffers]) hl).trans (List.append_assoc _ _ _)
    · intro o ho owed
      rcases List.mem_cons.mp ho with rfl | ho
      · exact ⟨rfl, trivial⟩
      · rcases List.mem_pair.mp ho with rfl | rfl <;> exact ⟨rfl, trivial⟩

/-- Sending the reply that is owed. -/
theorem sendReply_served (hacc : (answering expected).Accepts none s.log)
    (hfits : ∃ a, (answering expected).after none s.log = some a ∧ a.Fits s.conn.reply)
    (hx : exchanges.Accepts .idle s.log) (hok : exchanges.ok s.exchange (.replying s.conn.reply))
    (hw : s.writes = []) : (answering expected).Accepts none (s.sendReply E).log ∧
      ((s.sendReply E).fault = none → Served expected [] (s.sendReply E)) := by
  obtain ⟨l, hl, hrest⟩ := sendReply_tail E expected s
  have hacc' : (answering expected).Accepts none (s.sendReply E).log := by
    rw [hl, Monitor.accepts_append, Monitor.accepts_cons]
    exact ⟨hacc, hfits, Monitor.accepts_of_still fun o ho => hrest o ho _⟩
  have howed : (answering expected).after none (s.sendReply E).log = none := by
    rw [hl, Monitor.after_append, Monitor.after_cons]
    exact Monitor.after_of_still fun o ho => (hrest o ho _).1
  refine ⟨hacc', fun hf => ?_⟩
  have hreplied := (sendReply_staged E 0 hx hok hw).2 hf
  refine ⟨hacc', fun hidle => ?_, ?_⟩
  · rw [hreplied] at hidle
    rcases hidle with hidle | hidle <;> cases hidle
  · rw [hreplied, howed]
    exact ⟨rfl, rfl⟩

end Sessions

/-! ## The reply of a plan -/

section Replies

variable {State : Type} {E : Externals} {A : AsyncReply State} {s : Session State}

theorem handlerOps_cons (op : HandlerOp) (ops : List HandlerOp) (s : Session State) :
    s.handlerOps E A (op :: ops) = (s.handlerOp E A op).andThen (fun t => t.handlerOps E A ops) := rfl

theorem andThen_of_none (h : s.fault = none) (f : Session State → Session State) :
    s.andThen f = f s := by
  unfold Session.andThen
  rw [h]
  rfl

theorem handlerOps_append (hf : s.fault = none) (ops ops' : List HandlerOp) :
    s.handlerOps E A (ops ++ ops') =
      (s.handlerOps E A ops).andThen (fun t => t.handlerOps E A ops') := by
  induction ops generalizing s with
  | nil => exact (andThen_of_none hf (fun t => t.handlerOps E A ops')).symm
  | cons op ops ih =>
    rw [List.cons_append, handlerOps_cons, handlerOps_cons]
    cases hop : (s.handlerOp E A op).fault with
    | none =>
      rw [andThen_of_none hop, andThen_of_none hop, ih hop]
    | some f =>
      have hfault : (s.handlerOp E A op).fault ≠ none := by
        rw [hop]
        exact Option.some_ne_none f
      rw [andThen_of_fault hfault, andThen_of_fault hfault, andThen_of_fault hfault]

theorem andThen_setReply (hf : s.fault = none) (r : Reply) (f : Session State → Session State) :
    (s.setReply r).andThen f = f (s.setReply r) := by
  have hset : (s.setReply r).fault = none := hf
  exact andThen_of_none hset f

/-- The reply with this content. -/
def withContent (r : Reply) (b : Bytes) : Reply := { r with txBuffer := some b }

/-- The pieces of the content are written one after the other. -/
theorem handlerOps_writes (hf : s.fault = none) {b : Bytes} (hb : s.conn.reply.txBuffer = some b)
    (pieces : List Bytes) : s.handlerOps E A (pieces.map .writeContent) =
      s.setReply (withContent s.conn.reply (b ++ pieces.flatten)) := by
  induction pieces generalizing s b with
  | nil =>
    have hsame : withContent s.conn.reply (b ++ [].flatten) = s.conn.reply := by
      unfold withContent
      rw [List.flatten_nil, List.append_nil, ← hb]
    rw [hsame]
    rfl
  | cons p pieces ih =>
    have hop : s.handlerOp E A (.writeContent p) =
        s.setReply (withContent s.conn.reply (b ++ p)) := by
      simp only [Session.handlerOp, Reply.writeContent, Reply.deref, hb, Except.map,
        Session.takeReply, withContent]
    have hrest := ih (s := s.setReply (withContent s.conn.reply (b ++ p))) hf rfl
    rw [List.map_cons, handlerOps_cons, hop, andThen_setReply hf, hrest, List.flatten_cons,
      ← List.append_assoc]
    rfl

/-- A handler that gives its answer to a fresh reply. -/
theorem handlerOps_answer (hf : s.fault = none) (hfresh : Fresh s.conn.reply) (a : Answer) :
    ((s.handlerOps E A a.ops).fault ≠ none ∧ (s.handlerOps E A a.ops).log = s.log) ∨
      ∃ r, s.handlerOps E A a.ops = s.setReply r ∧ a.Fits r := by
  obtain ⟨hheaders, hnull | hempty⟩ := hfresh
  · -- without a buffer the first action fails
    left
    have hderef : s.conn.reply.deref = .error .nullReplyBuffer := by
      unfold Reply.deref
      rw [hnull]
    obtain ⟨op, ops, hops, hcrash⟩ : ∃ op ops, a.ops = op :: ops ∧
        s.handlerOp E A op = s.crash .nullReplyBuffer := by
      unfold Answer.ops
      cases a.pieces with
      | nil =>
        refine ⟨_, _, rfl, ?_⟩
        simp only [Session.handlerOp, Reply.create, Reply.contentLength, hderef, Except.map,
          Session.takeReply]
      | cons p pieces =>
        refine ⟨_, _, rfl, ?_⟩
        simp only [Session.handlerOp, Reply.writeContent, hderef, Except.map, Session.takeReply]
    rw [hops, handlerOps_cons, hcrash, andThen_of_fault (Option.some_ne_none _)]
    exact ⟨Option.some_ne_none _, rfl⟩
  · right
    unfold Answer.ops
    have hwritten := handlerOps_writes (E := E) (A := A) hf hempty a.pieces
    have hcreated := Reply.create_eq (r := withContent s.conn.reply a.content) rfl a.status
      Reply.textHtml 0
    rw [handlerOps_append hf, hwritten, andThen_setReply hf]
    refine ⟨{ withContent s.conn.reply a.content with
      status := a.status
      headers := Reply.resize s.conn.reply.headers 0 ++
        Reply.ownHeaders a.content Reply.textHtml }, ?_, rfl, rfl, ?_⟩
    · change ((s.setReply _).takeReply (Reply.create (withContent s.conn.reply a.content) a.status
        Reply.textHtml 0)).andThen _ = _
      rw [hcreated]
      exact andThen_setReply hf _ _
    · rw [hheaders]
      rfl

end Replies

/-! ## Steps of a connection -/

/-- The log is accepted, and unless the program has crashed the law holds. -/
def Kept (expected : Request → Option Answer) (js : List Answer) {State : Type} (s : Session State) :
    Prop :=
  (answering expected).Accepts none s.log ∧ (s.fault = none → Served expected js s)

section Steps

variable {E : Externals} {expected : Request → Option Answer} {js : List Answer} {a : Answer}
variable {s c t : Session E.parser.State} {bytes : Bytes}

theorem Served.kept (h : Served expected js s) : Kept expected js s := ⟨h.accepts, fun _ => h⟩

theorem Served.kept_of_same (h : Served expected js s) (hl : t.log = s.log)
    (hr : t.conn.reply = s.conn.reply) (hlent : t.lent = s.lent) : Kept expected js t :=
  (h.of_same hl hr hlent).kept

theorem kept_crash (h : (answering expected).Accepts none s.log) (f : Fault) :
    Kept expected js (s.crash f) := ⟨h, fun hf => by cases hf⟩

theorem startRead_served (hacc : (answering expected).Accepts none s.log)
    (howed : (answering expected).after none s.log = none) (hfresh : Fresh s.conn.reply) :
    Served expected [] s.startRead := by
  have hidle : s.startRead.exchange = .idle := exchange_append (l := [.readStarted]) rfl
  have hl : s.startRead.log = s.log ++ [.readStarted] := rfl
  refine ⟨?_, fun _ => hfresh, ?_⟩
  · rw [hl, Monitor.accepts_append]
    exact ⟨hacc, trivial, trivial⟩
  · rw [hidle, hl, Monitor.after_append]
    exact ⟨howed, rfl⟩

theorem fresh_parse (h : Fresh s.conn.reply) (bytes : Bytes) :
    Fresh (s.conn.httpParse E.parser bytes).conn.reply := by
  refine Connection.httpParse_induction (I := fun _ c => Fresh c.reply) ?_ ?_ h bytes
  · intro made c cb c' r hcb hc
    rw [(Connection.callback_frame hcb).reply]
    split
    · exact fresh_reset _
    · exact hc
  · exact fun _ _ _ hc => hc

/-- `http_parse` on a connection that owes nothing. -/
theorem parsed_owed (h : Served expected js s) (hx : s.exchange = .idle) (bytes : Bytes) (n : Nat) :
    (answering expected).Accepts none ((s.parse E bytes).note (.parsed bytes.length n)).log ∧
      (answering expected).after none ((s.parse E bytes).note (.parsed bytes.length n)).log =
        if bytes.length = n then none else some .badRequest := by
  have howes := h.owes
  rw [hx] at howes
  obtain ⟨l, hl, haside⟩ : ∃ l, (s.parse E bytes).log = s.log ++ l ∧ ∀ o ∈ l, Aside o :=
    ⟨_, rfl, aside_callbacks _⟩
  obtain ⟨hafter, hacc⟩ : (answering expected).after none l = none ∧
    (answering expected).Accepts none l := answering_asides haside
  have hparsed : (answering expected).after none (s.parse E bytes).log = none := by
    rw [hl, Monitor.after_append, howes.1, hafter]
  constructor
  · change (answering expected).Accepts none ((s.parse E bytes).log ++ [_])
    rw [Monitor.accepts_append, hparsed, hl, Monitor.accepts_append, howes.1]
    exact ⟨⟨h.accepts, hacc⟩, rfl, trivial⟩
  · change (answering expected).after none ((s.parse E bytes).log ++ [_]) = _
    rw [Monitor.after_append, hparsed]
    rfl

theorem parsed_served (h : Served expected js s) (hx : s.exchange = .idle) (bytes : Bytes) :
    Served expected js ((s.parse E bytes).note (.parsed bytes.length bytes.length)) := by
  obtain ⟨hacc, howed⟩ := parsed_owed (E := E) h hx bytes bytes.length
  have howes := h.owes
  have hidle : ((s.parse E bytes).note (.parsed bytes.length bytes.length)).exchange = .idle := by
    refine Eq.trans (exchange_still (List.append_assoc _ _ _) ?_) hx
    refine List.forall_mem_append.mpr ⟨still_callbacks _, ?_⟩
    exact List.forall_mem_singleton.mpr fun _ => ⟨rfl, trivial⟩
  refine ⟨hacc, fun _ => fresh_parse (h.fresh (Or.inl hx)) bytes, ?_⟩
  rw [hx] at howes
  rw [hidle, howed, if_pos rfl]
  exact ⟨rfl, howes.2⟩

/-- The 400 for a read that has been refused. -/
theorem badRequest_kept (hacc : (answering expected).Accepts none s.log)
    (howed : (answering expected).after none s.log = some .badRequest) (hfresh : Fresh s.conn.reply)
    (hfree : Free s s.reads s.posted) (hf : s.fault = none) : Kept expected [] (s.badRequest E) := by
  have hops : s.badRequest E = (s.handlerOps E (HttpConnection.async E) Answer.badRequest.ops).andThen
      (Session.sendReply E) := by
    unfold Session.badRequest
    change _ = ((s.takeReply (s.conn.reply.create .badRequest Reply.textHtml 0)).andThen
      (fun t => t)).andThen (Session.sendReply E)
    congr 1
    exact (ite_self _).symm
  rw [hops]
  rcases handlerOps_answer (A := HttpConnection.async E) hf hfresh .badRequest with
    ⟨hfault, hlog⟩ | ⟨r, hr, hfits⟩
  · rw [andThen_of_fault hfault]
    exact ⟨hlog ▸ hacc, fun hnone => absurd hnone hfault⟩
  · rw [hr, andThen_setReply hf]
    exact sendReply_served E hacc ⟨_, howed, hfits⟩ hfree.accepts (Or.inl hfree.idle) hfree.writes

/-- A read that passes nothing on. -/
theorem readSucceeded_kept (h : Served expected js s) (hfree : Free s s.reads s.posted)
    (hf : s.fault = none) (hnone : s.presented E id bytes = none) (A : AsyncReply E.parser.State) :
    Kept expected js (s.readSucceeded E A id bytes []) := by
  have howes := h.owes
  rw [hfree.idle] at howes
  obtain ⟨howed, rfl⟩ := howes
  unfold Session.presented at hnone
  unfold Session.readSucceeded
  cases hres : (s.conn.httpParse E.parser bytes).result with
  | error f =>
    refine kept_crash ?_ f
    have hlog : (s.parse E bytes).log = s.log ++ _ := rfl
    rw [hlog, Monitor.accepts_append]
    exact ⟨h.accepts, (answering_asides (aside_callbacks _)).2⟩
  | ok n =>
    rw [hres] at hnone
    dsimp only at hnone ⊢
    by_cases hn : n = bytes.length
    · subst hn
      have hserved := parsed_served (E := E) h hfree.idle bytes
      have hfree' : Free ((s.parse E bytes).note (.parsed bytes.length bytes.length)) s.reads s.posted :=
        hfree.parsed bytes bytes.length
      have hc : ¬ ((s.parse E bytes).note (.parsed bytes.length bytes.length)).conn.requestComplete =
          true := by
        intro hc
        rw [if_pos ⟨rfl, hc⟩] at hnone
        cases hnone
      rw [if_neg (not_not.mpr rfl), if_neg hc]
      have howed' := hserved.owes
      rw [hfree'.idle] at howed'
      have hread : Served expected [] (((s.parse E bytes).note (.parsed bytes.length
          bytes.length)).arm 5000 .handleTimer).startRead :=
        startRead_served hserved.accepts howed'.1 (hserved.fresh (Or.inl hfree'.idle))
      exact hread.kept
    · rw [if_pos hn]
      obtain ⟨hacc, hrefused⟩ := parsed_owed (E := E) h hfree.idle bytes n
      rw [if_neg (Ne.symm hn)] at hrefused
      exact badRequest_kept hacc hrefused (fresh_parse (h.fresh (Or.inl hfree.idle)) bytes)
        (hfree.parsed bytes n) hf

/-- A connection that has just been passed on, to be given the answer `a` if there is one. -/
structure Asked (expected : Request → Option Answer) (c : Session E.parser.State) : Prop where
  staged : Staged 0 c.reads c.posted c
  dispatched : c.exchange = .dispatched
  fault : c.fault = none
  lent : c.lent = true
  fresh : Fresh c.conn.reply
  accepts : (answering expected).Accepts none c.log
  owed : (answering expected).after none c.log = expected c.conn.request

theorem asked_of_presented (h : Served expected js s) (hfree : Free s s.reads s.posted)
    (hf : s.fault = none) (hc : s.presented E id bytes = some c) : Asked expected c := by
  have howes := h.owes
  rw [hfree.idle] at howes
  obtain ⟨howed, -⟩ := howes
  obtain ⟨hst, hx, hfault⟩ := presented_dispatched hfree hc
  unfold Session.presented at hc
  cases hres : (s.conn.httpParse E.parser bytes).result with
  | error f =>
    rw [hres] at hc
    cases hc
  | ok n =>
    rw [hres] at hc
    obtain ⟨⟨rfl, -⟩, hc⟩ := Option.ite_none_right_eq_some.mp hc
    rw [Option.some.inj hc.symm] at hst hx hfault ⊢
    have hserved := parsed_served (E := E) h hfree.idle bytes
    obtain ⟨l, hl, haside⟩ : ∃ l,
        (((s.parse E bytes).note (.parsed bytes.length bytes.length)).logRequest E).log =
          ((s.parse E bytes).note (.parsed bytes.length bytes.length)).log ++ l ∧ ∀ o ∈ l, Aside o := by
      obtain ⟨id, method, hlog⟩ := logRequest_log (E := E)
        ((s.parse E bytes).note (.parsed bytes.length bytes.length))
      exact ⟨_, hlog, aside_logged id method⟩
    have hidle := (hfree.parsed (E := E) bytes bytes.length).idle
    have howed' := hserved.owes
    rw [hidle] at howed'
    obtain ⟨hafter, hacc⟩ : (answering expected).after none l = none ∧
      (answering expected).Accepts none l := answering_asides haside
    refine ⟨hst, hx, hfault.trans hf, rfl, hserved.fresh (Or.inl hidle), ?_, ?_⟩
    · change (answering expected).Accepts none
        ((((s.parse E bytes).note (.parsed bytes.length bytes.length)).logRequest E).log ++ [_])
      rw [hl, Monitor.accepts_append, Monitor.accepts_append, Monitor.after_append, howed'.1, hafter]
      exact ⟨⟨hserved.accepts, hacc⟩, rfl, trivial⟩
    · change (answering expected).after none (_ ++ [_]) = _
      rw [Monitor.after_append]
      rfl

/-- `handle_read` after a handler that has given its answer. -/
theorem answered_now (h : Asked expected c) (ha : expected c.conn.request = some a) :
    Kept expected [] (answered (http E) c ⟨a.ops, 0, false⟩) := by
  unfold answered
  rw [if_neg Bool.false_ne_true]
  have hst := h.staged.stage
  rw [h.dispatched] at hst
  obtain ⟨-, hw, -, hwait⟩ := hst
  rcases handlerOps_answer (A := (http E).transport.async) h.fault h.fresh a with
    ⟨hfault, hlog⟩ | ⟨r, hr, hfits⟩
  · have hresume : (c.handlerOps E (http E).transport.async a.ops).resume E =
        c.handlerOps E (http E).transport.async a.ops := andThen_of_fault hfault _
    rw [hresume]
    exact ⟨hlog ▸ h.accepts, fun hnone => absurd hnone hfault⟩
  · have hresume : (c.setReply r).resume E = (c.setReply r).sendReply E := by
      unfold Session.resume
      rw [andThen_setReply h.fault]
      exact if_neg (by change ¬ c.conn.waitingForAsyncReply = true; rw [hwait]; exact Bool.false_ne_true)
    dsimp only
    rw [hr, hresume]
    exact sendReply_served E h.accepts ⟨a, h.owed.trans ha, hfits⟩ h.staged.accepts
      (Or.inr (Or.inl h.dispatched)) hw

/-- `handle_read` after a handler that has put its answer off. -/
theorem answered_later (h : Asked expected c) (ha : expected c.conn.request = some a) :
    Kept expected [a] (answered (http E) c ⟨[.waitForAsyncReply], 1, false⟩) := by
  obtain ⟨-, hx⟩ := waitForAsyncReply_staged (HttpConnection.counting E) h.staged h.dispatched
  have hanswered : answered (http E) c ⟨[.waitForAsyncReply], 1, false⟩ =
      (HttpConnection.waitForAsyncReply c).arm 3605000 .handleTimer := by
    have hf : (HttpConnection.waitForAsyncReply c).fault = none := h.fault
    unfold answered
    rw [if_neg Bool.false_ne_true]
    change ((HttpConnection.waitForAsyncReply c).andThen (fun t => t)).resume E = _
    rw [andThen_of_none hf]
    unfold Session.resume
    rw [andThen_of_none hf]
    rfl
  rw [hanswered]
  have hl : ((HttpConnection.waitForAsyncReply c).arm 3605000 .handleTimer).log =
      c.log ++ [.deferred] := rfl
  refine Served.kept ⟨?_, fun _ => h.fresh, ?_⟩
  · rw [hl, Monitor.accepts_append]
    exact ⟨h.accepts, trivial, trivial⟩
  · have hwaiting : ((HttpConnection.waitForAsyncReply c).arm 3605000 .handleTimer).exchange =
        .waiting := hx
    rw [hwaiting, hl, Monitor.after_append, h.owed]
    exact ⟨h.lent, a, ha, rfl⟩

/-- The timer of a handler gives the answer. -/
theorem handlerOps_posted (h : Served expected js s) (hset : HttpConnection.Settled s)
    (hx : s.exchange = .waiting) (hf : s.fault = none) (hjs : js = [a]) :
    Kept expected []
      (s.handlerOps E (HttpConnection.async E) (a.ops ++ [.notifyAsyncReplyDone])) := by
  subst hjs
  have howes := h.owes
  rw [hx] at howes
  obtain ⟨-, b, howed, hb⟩ := howes
  obtain rfl : a = b := (List.cons.inj hb).1
  rw [handlerOps_append hf]
  rcases handlerOps_answer (A := HttpConnection.async E) hf (h.fresh (Or.inr hx)) a with
    ⟨hfault, hlog⟩ | ⟨r, hr, hfits⟩
  · rw [andThen_of_fault hfault]
    exact ⟨hlog ▸ h.accepts, fun hnone => absurd hnone hfault⟩
  · rw [hr, andThen_setReply hf]
    have hstaged := (hset.staged.of_reply (t := s.setReply r) (Or.inr hx) rfl rfl rfl).1
    have hx' : (s.setReply r).exchange = .waiting := hx
    obtain ⟨-, hnotified⟩ :=
      notifyAsyncReplyDone_staged (HttpConnection.counting E) hstaged hx'
    have hops : (s.setReply r).handlerOps E (HttpConnection.async E) [.notifyAsyncReplyDone] =
        HttpConnection.notifyAsyncReplyDone E (s.setReply r) := ite_self _
    rw [hops]
    obtain ⟨⟨id, hl⟩, -⟩ := (HttpConnection.counting E).notifies (s.setReply r)
    have hl' : (HttpConnection.notifyAsyncReplyDone E (s.setReply r)).log =
        s.log ++ [.notified r, .requestIdLogged id] := hl
    have hx'' : (HttpConnection.notifyAsyncReplyDone E (s.setReply r)).exchange = .notified r :=
      hnotified
    refine Served.kept ⟨?_, fun hidle => ?_, ?_⟩
    · rw [hl', Monitor.accepts_append]
      exact ⟨h.accepts, trivial, trivial, trivial⟩
    · rw [hx''] at hidle
      rcases hidle with hidle | hidle <;> cases hidle
    · rw [hx'', hl', Monitor.after_append, howed]
      exact ⟨a, rfl, hfits, rfl⟩

/-- Completions other than reads. -/
theorem completion_kept (h : Served expected js s) (hset : HttpConnection.Settled s)
    {ev : Server.Event} (hev : isCompletion ev = true)
    (hs : s.step E (HttpConnection.transport E) ev = some t) : Kept expected js t := by
  obtain ⟨hf, hstep⟩ := Session.stepped_of_step hs
  cases hstep with
  | read e bytes ops hr hb => cases hev
  | handler op hl => cases hev
  | handshake e hh => exact h.kept_of_same rfl rfl rfl
  | expire hp => exact h.kept_of_same rfl rfl rfl
  | timer i x timer hd =>
    change Kept expected js (HttpConnection.handleTimer x.wait x.code { s with timer := timer })
    unfold HttpConnection.handleTimer
    cases x.code with
    | success =>
      have hout : Served expected js (({ s with timer := timer } : Session E.parser.State).note
          (.timedOut x.wait)) := by
        refine h.of_aside (l := [.timedOut x.wait]) rfl ?_ rfl rfl
        exact List.forall_mem_singleton.mpr ⟨fun _ => ⟨rfl, trivial⟩, fun _ _ => Obs.noConfusion⟩
      exact hout.kept
    | operationAborted | failure => exact h.kept_of_same rfl rfl rfl
  | write i e hi =>
    obtain ⟨hx, -, hw, -, -⟩ := hset.staged.written hi
    have howes := h.owes
    rw [hx] at howes
    obtain ⟨howed, rfl⟩ := howes
    change Kept expected [] (HttpConnection.handleWrite e { s with writes := s.writes.eraseIdx i })
    unfold HttpConnection.handleWrite
    cases e with
    | operationAborted => exact h.kept_of_same rfl rfl rfl
    | success =>
      dsimp only
      split
      · refine Served.kept (startRead_served ?_ ?_ ?_)
        · exact h.accepts
        · exact howed
        · exact fresh_reset _
      · exact h.kept_of_same rfl rfl rfl
    | failure =>
      dsimp only
      split
      · exact h.kept_of_same rfl rfl rfl
      · exact h.kept_of_same rfl rfl rfl
  | asyncReplyDone hp =>
    obtain ⟨r, hx⟩ := hset.notified_of_posted hp
    have hst := hset.staged.stage
    rw [hx] at hst
    obtain ⟨-, hw, -, -, hreply⟩ := hst
    have howes := h.owes
    rw [hx] at howes
    obtain ⟨a, howed, hfits, rfl⟩ := howes
    have hok : exchanges.ok s.exchange (.replying s.conn.reply) := by
      rw [hx, hreply]
      exact Or.inr (Or.inr rfl)
    exact sendReply_served E h.accepts ⟨a, howed, hreply ▸ hfits⟩ hset.staged.accepts hok hw

end Steps

end CsiHttp.Service
