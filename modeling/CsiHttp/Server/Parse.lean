import CsiHttp.Server.Connection

/-!
# What a call of `http_parse` leaves behind

The completeness flag is cleared by `on_message_begin` and set by `on_message_complete`,
and the callbacks of a documented parser come in order. So after a call that parsed all
of its bytes the flag tells whether the parser stands between two messages, except that
a call without any callback leaves the flag as it was.
-/
namespace CsiHttp.Server

open Lib Lib.Text

/-- The completeness flag after a callback that found it at `b`. -/
def Callback.completes (b : Bool) : Callback → Bool
  | .messageBegin => false
  | .messageComplete _ => true
  | _ => b

theorem Phase.next_eq_idle {ph : Phase} {cb : Callback} (h : ph.next cb = some .idle) :
    ∃ k, cb = .messageComplete k := by
  cases ph <;> cases cb <;> first | exact ⟨_, rfl⟩ | cases h

/-- A callback that leaves a message in progress keeps the flag cleared. -/
theorem Phase.completes_of_next {ph q : Phase} {cb : Callback} {b : Bool}
    (h : ph.next cb = some q) (hq : q ≠ .idle) (hb : ph ≠ .idle → b = false) :
    cb.completes b = false := by
  cases ph <;> cases cb <;> cases h <;>
    first | rfl | exact hb Phase.noConfusion | exact absurd rfl hq

namespace Connection

variable {State : Type} {parseUrl : Bytes → Option UrlFields}
variable {c c' : Connection State} {cb : Callback} {cbs : List Callback} {r : Int}

/-- What a callback changes of the connection apart from the request. -/
structure CallbackFrame (c : Connection State) (cb : Callback) (c' : Connection State) : Prop where
  tag : c'.requestIdHeaderTag = c.requestIdHeaderTag
  parser : c'.parser = c.parser
  waiting : c'.waitingForAsyncReply = c.waitingForAsyncReply
  complete : c'.requestComplete = cb.completes c.requestComplete
  reply : c'.reply = if cb = .messageBegin then c.reply.reset else c.reply

theorem commitPending_frame (c : Connection State) :
    c.commitPending.requestIdHeaderTag = c.requestIdHeaderTag ∧
      c.commitPending.parser = c.parser ∧
      c.commitPending.waitingForAsyncReply = c.waitingForAsyncReply ∧
      c.commitPending.requestComplete = c.requestComplete ∧ c.commitPending.reply = c.reply := by
  unfold commitPending
  split <;> exact ⟨rfl, rfl, rfl, rfl, rfl⟩

theorem callback_frame (h : c.callback parseUrl cb = .ok (c', r)) : CallbackFrame c cb c' := by
  cases cb with
  | messageBegin =>
    cases h
    exact ⟨rfl, rfl, rfl, rfl, rfl⟩
  | url piece =>
    simp only [callback, onUrl] at h
    split at h <;> cases h <;> exact ⟨rfl, rfl, rfl, rfl, rfl⟩
  | headerField piece =>
    obtain ⟨h1, h2, h3, h4, h5⟩ := c.commitPending_frame
    simp only [callback, onHeaderField] at h
    split at h <;> cases h
    exact ⟨h1, h2, h3, h4, h5⟩
  | headerValue piece =>
    simp only [callback, onHeaderValue] at h
    split at h <;> cases h
    exact ⟨rfl, rfl, rfl, rfl, rfl⟩
  | headersComplete method contentLength =>
    obtain ⟨h1, h2, h3, h4, h5⟩ := c.commitPending_frame
    cases h
    exact ⟨h1, h2, h3, h4, h5⟩
  | body piece =>
    cases h
    exact ⟨rfl, rfl, rfl, rfl, rfl⟩
  | messageComplete keepAlive =>
    cases h
    exact ⟨rfl, rfl, rfl, rfl, rfl⟩

/-- Only `on_url` ever refuses. -/
theorem callback_refused (h : c.callback parseUrl cb = .ok (c', r)) (hr : r ≠ 0) :
    ∃ piece, cb = .url piece := by
  cases cb with
  | url piece => exact ⟨piece, rfl⟩
  | headerField piece =>
    simp only [callback] at h
    cases hf : c.onHeaderField piece <;> rw [hf] at h <;> cases h
    exact absurd rfl hr
  | headerValue piece =>
    simp only [callback] at h
    cases hf : c.onHeaderValue piece <;> rw [hf] at h <;> cases h
    exact absurd rfl hr
  | messageBegin | headersComplete _ _ | body _ | messageComplete _ =>
    cases h
    exact absurd rfl hr

theorem callback_buffer_iff (h : c.callback parseUrl cb = .ok (c', r)) :
    c'.reply.HasBuffer ↔ c.reply.HasBuffer ∨ cb = .messageBegin := by
  rw [(callback_frame h).reply]
  by_cases hcb : cb = .messageBegin
  · rw [if_pos hcb]
    exact iff_of_true (Reply.reset_hasBuffer _) (Or.inr hcb)
  · rw [if_neg hcb]
    exact (or_iff_left hcb).symm

/-! ## A sequence of callbacks -/

/-- How the callbacks of one `http_parser_execute` call end. -/
structure DeliveryOutcome (parseUrl : Bytes → Option UrlFields) (c : Connection State)
    (cbs : List Callback) (ph' : Phase) (d : Delivery State) : Prop where
  parser : d.conn.parser = c.parser
  busy : d.stop = .finished → ph' ≠ .idle → d.conn.requestComplete = false
  idle : d.stop = .finished → ph' = .idle → cbs ≠ [] →
    d.conn.requestComplete = true ∧ ∃ k, .messageComplete k ∈ d.made
  refused : d.stop = .refused → d.conn.requestComplete = false

theorem deliver_outcome (parseUrl : Bytes → Option UrlFields) {ph ph' : Phase} (hf : ph.follow cbs = some ph')
    (hc : ph ≠ .idle → c.requestComplete = false) :
    DeliveryOutcome parseUrl c cbs ph' (c.deliver parseUrl cbs) := by
  induction cbs generalizing c ph with
  | nil =>
    obtain rfl := Option.some.inj hf
    exact ⟨rfl, fun _ => hc, fun _ _ h => absurd rfl h, fun h => Stop.noConfusion h⟩
  | cons cb cbs ih =>
    obtain ⟨q, hq, hf⟩ := Phase.follow_cons_iff.mp hf
    cases hcb : c.callback parseUrl cb with
    | error f =>
      rw [deliver_cons_error hcb]
      exact ⟨rfl, fun h => Stop.noConfusion h, fun h => Stop.noConfusion h,
        fun h => Stop.noConfusion h⟩
    | ok p =>
      obtain ⟨c1, r⟩ := p
      have hframe := callback_frame hcb
      by_cases hr : r = 0
      · subst hr
        rw [deliver_cons_ok hcb]
        have hbusy : q ≠ .idle → c1.requestComplete = false := by
          intro hne
          rw [hframe.complete]
          exact Phase.completes_of_next hq hne hc
        have hd := ih hf hbusy
        refine ⟨hd.parser.trans hframe.parser, hd.busy, ?_, hd.refused⟩
        intro hstop hidle _
        cases cbs with
        | nil =>
          obtain rfl := Option.some.inj hf
          obtain ⟨k, rfl⟩ := Phase.next_eq_idle (hidle ▸ hq)
          exact ⟨hframe.complete, k, List.mem_cons_self⟩
        | cons cb' cbs' =>
          obtain ⟨hcomp, k, hk⟩ := hd.idle hstop hidle (List.cons_ne_nil _ _)
          exact ⟨hcomp, k, List.mem_cons_of_mem _ hk⟩
      · rw [deliver_cons_refused hcb hr]
        obtain ⟨piece, rfl⟩ := callback_refused hcb hr
        have hne : q ≠ .idle := by
          rintro rfl
          obtain ⟨k, hk⟩ := Phase.next_eq_idle hq
          cases hk
        refine ⟨hframe.parser, fun h => Stop.noConfusion h, fun h => Stop.noConfusion h,
          fun _ => ?_⟩
        rw [hframe.complete]
        exact Phase.completes_of_next hq hne hc

/-- The only fault of a callback is a header that does not fit. -/
theorem callback_error {f : Fault} (h : c.callback parseUrl cb = .error f) :
    f = .headerOverflow := by
  cases cb with
  | headerField piece =>
    simp only [callback, onHeaderField] at h
    split at h <;> cases h
    rfl
  | headerValue piece =>
    simp only [callback, onHeaderValue] at h
    split at h <;> cases h
    rfl
  | messageBegin | url _ | headersComplete _ _ | body _ | messageComplete _ => cases h

theorem deliver_fault {f : Fault} (h : (c.deliver parseUrl cbs).stop = .fault f) :
    f = .headerOverflow := by
  induction cbs generalizing c with
  | nil => cases h
  | cons cb cbs ih =>
    cases hcb : c.callback parseUrl cb with
    | error f' =>
      rw [deliver_cons_error hcb] at h
      obtain rfl := Stop.fault.inj h
      exact callback_error hcb
    | ok p =>
      obtain ⟨c1, r⟩ := p
      by_cases hr : r = 0
      · subst hr
        rw [deliver_cons_ok hcb] at h
        exact ih h
      · rw [deliver_cons_refused hcb hr] at h
        cases h

/-- What every callback keeps of the connection and the callbacks made so far, a sequence of
callbacks keeps. -/
theorem deliver_induction {I : List Callback → Connection State → Prop}
    (hI : ∀ made c cb c' r, c.callback parseUrl cb = .ok (c', r) → I made c → I (made ++ [cb]) c')
    (cbs : List Callback) {made : List Callback} (h : I made c) :
    I (made ++ (c.deliver parseUrl cbs).made) (c.deliver parseUrl cbs).conn := by
  induction cbs generalizing c made with
  | nil =>
    rw [deliver, List.append_nil]
    exact h
  | cons cb cbs ih =>
    cases hcb : c.callback parseUrl cb with
    | error f =>
      rw [deliver_cons_error hcb, List.append_nil]
      exact h
    | ok p =>
      obtain ⟨c1, r⟩ := p
      have h1 := hI made c cb c1 r hcb h
      by_cases hr : r = 0
      · subst hr
        have hrest := ih h1
        rw [← List.append_cons] at hrest
        rw [deliver_cons_ok hcb]
        exact hrest
      · rw [deliver_cons_refused hcb hr]
        exact h1

/-! ## A call of `http_parse` -/

section HttpParse

variable {P : HttpParser} {phase : P.State → Phase} {c : Connection P.State} {st : P.State}

theorem httpParse_fault (hc : c.parser = some st) (buf : Bytes) {f : Fault}
    (h : (c.deliver P.parseUrl (P.execute st buf).calls).stop = .fault f) :
    c.httpParse P buf = ⟨(c.deliver P.parseUrl (P.execute st buf).calls).conn,
      (c.deliver P.parseUrl (P.execute st buf).calls).made, .error f⟩ := by
  simp only [httpParse, hc, h]

theorem httpParse_refused (hc : c.parser = some st) (buf : Bytes)
    (h : (c.deliver P.parseUrl (P.execute st buf).calls).stop = .refused) :
    c.httpParse P buf = ⟨{ (c.deliver P.parseUrl (P.execute st buf).calls).conn with parser := none },
      (c.deliver P.parseUrl (P.execute st buf).calls).made, .ok ((P.execute st buf).onRefusal
        ((c.deliver P.parseUrl (P.execute st buf).calls).made.length - 1))⟩ := by
  simp only [httpParse, hc, h]

theorem httpParse_finished (hc : c.parser = some st) (buf : Bytes)
    (h : (c.deliver P.parseUrl (P.execute st buf).calls).stop = .finished) :
    c.httpParse P buf = ⟨{ (c.deliver P.parseUrl (P.execute st buf).calls).conn with
      parser := (P.execute st buf).after },
      (c.deliver P.parseUrl (P.execute st buf).calls).made, .ok (P.execute st buf).nparsed⟩ := by
  simp only [httpParse, hc, h]

/-- A parser that has failed parses nothing and makes no callback. -/
theorem httpParse_dead (hc : c.parser = none) (buf : Bytes) : c.httpParse P buf = ⟨c, [], .ok 0⟩ := by
  simp only [httpParse, hc]

theorem httpParse_induction {I : List Callback → Connection P.State → Prop}
    (hI : ∀ made c cb c' r, c.callback P.parseUrl cb = .ok (c', r) → I made c →
      I (made ++ [cb]) c')
    (hparser : ∀ made c p, I made c → I made { c with parser := p }) (h : I [] c) (buf : Bytes) :
    I (c.httpParse P buf).made (c.httpParse P buf).conn := by
  cases hc : c.parser with
  | none =>
    rw [httpParse_dead hc]
    exact h
  | some st =>
    have hd := deliver_induction hI (P.execute st buf).calls h
    rw [List.nil_append] at hd
    cases hstop : (c.deliver P.parseUrl (P.execute st buf).calls).stop with
    | fault f =>
      rw [httpParse_fault hc buf hstop]
      exact hd
    | refused =>
      rw [httpParse_refused hc buf hstop]
      exact hparser _ _ _ hd
    | finished =>
      rw [httpParse_finished hc buf hstop]
      exact hparser _ _ _ hd

/-- What every callback keeps, and the state of the parser has no part in, a call keeps. -/
theorem httpParse_invariant {Q : Connection P.State → Prop}
    (hQ : ∀ c cb c' r, c.callback P.parseUrl cb = .ok (c', r) → Q c → Q c')
    (hparser : ∀ c p, Q c → Q { c with parser := p }) (h : Q c) (buf : Bytes) :
    Q (c.httpParse P buf).conn :=
  httpParse_induction (I := fun _ d => Q d) (fun _ => hQ) (fun _ => hparser) h buf

/-- What every callback makes of a part of the connection, a call makes of it. -/
theorem httpParse_fold {α : Type} (get : Connection P.State → α) {next : α → Callback → α}
    (h : ∀ c cb c' r, c.callback P.parseUrl cb = .ok (c', r) → get c' = next (get c) cb)
    (hparser : ∀ c p, get { c with parser := p } = get c) (c : Connection P.State) (buf : Bytes) :
    get (c.httpParse P buf).conn = (c.httpParse P buf).made.foldl next (get c) := by
  refine httpParse_induction (I := fun made d => get d = made.foldl next (get c)) ?_ ?_ rfl buf
  · intro made d cb d' r hcb hd
    rw [h d cb d' r hcb, hd, List.foldl_append]
    rfl
  · intro made d p hd
    rw [hparser]
    exact hd

theorem httpParse_waiting (c : Connection P.State) (buf : Bytes) :
    (c.httpParse P buf).conn.waitingForAsyncReply = c.waitingForAsyncReply :=
  httpParse_invariant (Q := fun d => d.waitingForAsyncReply = c.waitingForAsyncReply)
    (fun _ _ _ _ h hc => (callback_frame h).waiting.trans hc) (fun _ _ h => h) rfl buf

theorem foldl_begins_iff (b : Prop) (cbs : List Callback) :
    cbs.foldl (fun b cb => b ∨ cb = .messageBegin) b ↔ b ∨ .messageBegin ∈ cbs := by
  induction cbs generalizing b with
  | nil => simp
  | cons cb cbs ih =>
    rw [List.foldl_cons, ih, or_assoc, List.mem_cons, eq_comm]

/-- The reply has its buffer once a message has begun, and no sooner. -/
theorem httpParse_buffer_iff (c : Connection P.State) (buf : Bytes) :
    (c.httpParse P buf).conn.reply.HasBuffer ↔
      c.reply.HasBuffer ∨ .messageBegin ∈ (c.httpParse P buf).made := by
  have hfold : (c.httpParse P buf).conn.reply.HasBuffer =
      (c.httpParse P buf).made.foldl (fun b cb => b ∨ cb = .messageBegin) c.reply.HasBuffer :=
    httpParse_fold (fun c => c.reply.HasBuffer) (fun _ _ _ _ h => propext (callback_buffer_iff h))
      (fun _ _ => rfl) c buf
  rw [hfold]
  exact foldl_begins_iff _ _

theorem httpParse_error {buf : Bytes} {f : Fault} (h : (c.httpParse P buf).result = .error f) :
    f = .headerOverflow := by
  cases hc : c.parser with
  | none =>
    rw [httpParse_dead hc] at h
    cases h
  | some st =>
    cases hstop : (c.deliver P.parseUrl (P.execute st buf).calls).stop with
    | fault f' =>
      rw [httpParse_fault hc buf hstop] at h
      cases h
      exact deliver_fault hstop
    | refused =>
      rw [httpParse_refused hc buf hstop] at h
      cases h
    | finished =>
      rw [httpParse_finished hc buf hstop] at h
      cases h

/-- Between two messages the first callback of a call can only begin a message. -/
theorem httpParse_begins (hP : P.Documented phase) (hc : c.parser = some st)
    (hidle : phase st = .idle) {buf : Bytes} (hcalls : (P.execute st buf).calls ≠ []) :
    .messageBegin ∈ (c.httpParse P buf).made := by
  obtain ⟨ph, hf, -⟩ := hP.ordered st buf
  have hmade : .messageBegin ∈ (c.deliver P.parseUrl (P.execute st buf).calls).made := by
    cases hx : (P.execute st buf).calls with
    | nil => exact absurd hx hcalls
    | cons cb cbs =>
      rw [hx, hidle] at hf
      obtain ⟨q, hq, -⟩ := Phase.follow_cons_iff.mp hf
      cases cb with
      | messageBegin => exact List.mem_cons_self
      | url _ | headerField _ | headerValue _ | headersComplete _ _ | body _ | messageComplete _ =>
        cases hq
  cases hstop : (c.deliver P.parseUrl (P.execute st buf).calls).stop with
  | fault f => rwa [httpParse_fault hc buf hstop]
  | refused => rwa [httpParse_refused hc buf hstop]
  | finished => rwa [httpParse_finished hc buf hstop]

/-- The parser and the flag when the parser is still alive after the call. -/
theorem httpParse_alive (hP : P.Documented phase) (hc : c.parser = some st)
    (hph : phase st ≠ .idle → c.requestComplete = false) {buf : Bytes} {n : Nat} {st' : P.State}
    (hres : (c.httpParse P buf).result = .ok n) (hst : (c.httpParse P buf).conn.parser = some st') :
    (phase st' ≠ .idle → (c.httpParse P buf).conn.requestComplete = false) ∧
    (phase st' = .idle →
      ((P.execute st buf).calls = [] ∧ phase st = .idle ∧ (c.httpParse P buf).made = [] ∧
        (c.httpParse P buf).conn.requestComplete = c.requestComplete) ∨
      ((c.httpParse P buf).conn.requestComplete = true ∧
        ∃ k, .messageComplete k ∈ (c.httpParse P buf).made)) := by
  obtain ⟨ph, hf, hafter⟩ := hP.ordered st buf
  have hd := deliver_outcome P.parseUrl hf hph
  cases hstop : (c.deliver P.parseUrl (P.execute st buf).calls).stop with
  | fault f =>
    rw [httpParse_fault hc buf hstop] at hres
    cases hres
  | refused =>
    rw [httpParse_refused hc buf hstop] at hst
    cases hst
  | finished =>
    rw [httpParse_finished hc buf hstop] at hst ⊢
    rw [hafter st' hst]
    refine ⟨hd.busy hstop, fun hidle => ?_⟩
    by_cases hcalls : (P.execute st buf).calls = []
    · refine Or.inl ⟨hcalls, ?_, ?_, ?_⟩
      · rw [hcalls] at hf
        exact (Option.some.inj hf).trans hidle
      · rw [hcalls]
        rfl
      · rw [hcalls]
        rfl
    · exact Or.inr (hd.idle hstop hidle hcalls)

/-- A call that parsed all of its bytes and left the parser dead was refused by `on_url`,
in the middle of a message. -/
theorem httpParse_died (hP : P.Documented phase) (hc : c.parser = some st)
    (hph : phase st ≠ .idle → c.requestComplete = false) {buf : Bytes}
    (hres : (c.httpParse P buf).result = .ok buf.length)
    (hdead : (c.httpParse P buf).conn.parser = none) :
    (c.httpParse P buf).conn.requestComplete = false := by
  obtain ⟨ph, hf, -⟩ := hP.ordered st buf
  have hd := deliver_outcome P.parseUrl hf hph
  cases hstop : (c.deliver P.parseUrl (P.execute st buf).calls).stop with
  | fault f =>
    rw [httpParse_fault hc buf hstop] at hres
    cases hres
  | refused =>
    rw [httpParse_refused hc buf hstop]
    exact hd.refused hstop
  | finished =>
    rw [httpParse_finished hc buf hstop] at hres hdead
    exact absurd (Except.ok.inj hres) (hP.short st buf hdead)

end HttpParse

end Connection

end CsiHttp.Server
