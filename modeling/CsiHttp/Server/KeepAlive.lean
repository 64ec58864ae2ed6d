import CsiHttp.Server.Closing
import CsiHttp.Server.HttpExchange
import CsiHttp.Server.HttpsExchange

/-!
# Who honours `Connection: close`

`http_connection::handle_write` looks at the keep-alive decision again before it starts the
next read. `https_connection::handle_write_complete` does not: it keeps the promise of the
header exactly as long as no write completes after a decision against keep-alive.
-/
namespace CsiHttp.Server

open Lib Lib.Text Lib.Runs

/-- What the header says about a step. -/
structure Honours {State : Type} (s : Session State) (ev : Event) (t : Session State) : Prop where
  /-- Once a reply with the header is written no read is started and no request dispatched. -/
  ended : closings.Accepts .keeping t.log
  /-- A reply without it, when its write has succeeded, is followed by exactly one read. -/
  goesOn : ∀ i, ev = .write i .success → s.closing ≠ .closed →
    t.log = s.log ++ [.readStarted] ∧ s.reads = 0 ∧ t.reads = 1

namespace HttpConnection

section Handlers

variable {State : Type} {s : Session State}

theorem asideAsync (E : Externals) : AsideAsync (async E : AsyncReply State) where
  wait s := ((aside_note s plain_deferred).trans (aside_setWaiting _ true)).trans (aside_arm _ _ _)
  notify s := ((aside_note s (plain_notified _)).trans ((aside_kept E).logRequestId _)).trans
    (.of_same rfl rfl rfl rfl rfl)

theorem counts_reads : Counts (Session.reads : Session State → Nat) := fun _ _ hr _ => hr

theorem handleTimer_aside (w : Wait Waiter) (e : ErrorCode) (s : Session State) :
    Aside s (handleTimer w e s) := by
  cases e with
  | success => exact aside_note s (plain_timedOut w)
  | operationAborted => exact .refl s
  | failure => exact .refl s

/-- `handle_write` with no other operation on its way. -/
theorem handleWrite_sealed (h : Sealed Session.reads s) (hw : s.writes = []) (e : ErrorCode) :
    Sealed Session.reads (handleWrite e s) := by
  have hcancel := h.aside counts_reads (aside_cancelTimer s)
  cases e with
  | operationAborted => exact h
  | success =>
    unfold handleWrite
    dsimp only
    split
    · rename_i hk
      exact sealed_startRead h.accepts (h.lives_of_keepAlive hk) hw
    · exact hcancel
  | failure =>
    unfold handleWrite
    dsimp only
    split
    · exact h
    · exact hcancel

end Handlers

variable {E : Externals} {s t : Session E.parser.State} {ev : Event}

theorem handleRead_sealed (h : Settled s) (hc : Sealed Session.reads s) (hr : 0 < s.reads)
    (e : ErrorCode) (bytes : Bytes) (ops : List HandlerOp) :
    Sealed Session.reads (handleRead E e bytes ops { s with reads := s.reads - 1 }) := by
  have hst := h.staged.stage
  rw [h.staged.idle_of_starts (Nat.pos_iff_ne_zero.mp hr)] at hst
  obtain ⟨hle, hw, -⟩ := hst
  have hfree : Unsealed Session.reads { s with reads := s.reads - 1 } := by
    refine ⟨hc.accepts, hc.lives_of_starts (Nat.pos_iff_ne_zero.mp hr), ?_, hw⟩
    change s.reads - 1 = 0
    omega
  have hcancel := hfree.aside counts_reads (aside_cancelTimer _)
  cases e with
  | operationAborted => exact hfree.sealed
  | failure => exact hcancel.sealed
  | success => exact unsealed_readSucceeded (asideAsync E) Aside.refl bytes ops hcancel counts_reads

theorem step_sealed (h : Settled s) (hc : Sealed Session.reads s) (hs : step E s ev = some t) :
    Sealed Session.reads t := by
  cases (Session.stepped_of_step hs).2 with
  | handshake e hh => exact hc.completed rfl rfl (Nat.le_refl _) id
  | read e bytes ops hr hb => exact handleRead_sealed h hc hr e bytes ops
  | write i e hi =>
    obtain ⟨-, -, hw, -⟩ := h.staged.written hi
    have hwritten : Sealed Session.reads { s with writes := s.writes.eraseIdx i } :=
      hc.completed rfl rfl (Nat.le_refl _) (fun hne => absurd hw hne)
    exact handleWrite_sealed hwritten hw e
  | expire hp => exact hc.completed rfl rfl (Nat.le_refl _) id
  | timer i c timer hdeq =>
    have htimer : Sealed Session.reads { s with timer := timer } :=
      hc.completed rfl rfl (Nat.le_refl _) id
    exact htimer.aside counts_reads (handleTimer_aside _ _ _)
  | asyncReplyDone hp =>
    have hst := h.staged.stage
    cases hx : s.exchange with
    | idle | dispatched | waiting | sending _ | replied =>
      rw [hx] at hst
      exact absurd hst.2.2.1 (Nat.pos_iff_ne_zero.mp hp)
    | notified r =>
      rw [hx] at hst
      obtain ⟨hr, hw, -⟩ := hst
      have hposted : Sealed Session.reads
          ({ s with posted := s.posted - 1 } : Session E.parser.State).cancelTimer :=
        hc.completed rfl rfl (Nat.le_refl _) id
      exact sealed_sendReply E hposted counts_reads hr hw
  | handler op hl => exact hc.aside counts_reads (aside_handlerOp (asideAsync E) s op)

theorem step_goesOn (h : Settled s) (hc : Sealed Session.reads s) {i : Nat}
    (hs : step E s (.write i .success) = some t) (hlives : s.closing ≠ .closed) :
    t.log = s.log ++ [.readStarted] ∧ s.reads = 0 ∧ t.reads = 1 := by
  cases (Session.stepped_of_step hs).2 with
  | write i e hi =>
    obtain ⟨-, hr, -⟩ := h.staged.written hi
    have hk := hc.linked (List.ne_nil_of_length_pos (Nat.zero_lt_of_lt hi)) hlives
    change (handleWrite .success { s with writes := s.writes.eraseIdx i }).log = _ ∧ _ ∧
      (handleWrite .success { s with writes := s.writes.eraseIdx i }).reads = 1
    unfold handleWrite
    dsimp only
    rw [if_pos hk]
    refine ⟨rfl, hr, ?_⟩
    change s.reads + 1 = 1
    rw [hr]

theorem start_sealed (tag : Bytes) (junk : Uninitialised) :
    Sealed Session.reads (start E tag junk) :=
  sealed_startRead trivial Closing.noConfusion rfl

theorem step_honours (h : Settled s ∧ Sealed Session.reads s) (hd : Disciplined s ev)
    (hs : step E s ev = some t) : (Settled t ∧ Sealed Session.reads t) ∧ Honours s ev t := by
  have ht := step_sealed h.1 h.2 hs
  refine ⟨⟨step_settled h.1 hd hs, ht⟩, ht.accepts, ?_⟩
  rintro i rfl hlives
  exact step_goesOn h.1 h.2 hs hlives

end HttpConnection

namespace HttpsConnection

section Handlers

variable {State : Type} {s t : Session State} {E : Externals}

theorem asideAsync (E : Externals) : AsideAsync (async E : AsyncReply State) where
  wait s := ((aside_note s plain_deferred).trans (aside_setWaiting _ true)).trans (aside_arm _ _ _)
  notify s := ((aside_note s (plain_notified _)).trans ((aside_kept E).logRequestId _)).trans
    (aside_cancelTimer _)

theorem counts_starting : Counts (starting : Session State → Nat) := by
  intro s t hr hh
  unfold starting
  rw [hr, hh]

/-- The operations through which a connection goes on by itself. -/
def load (s : Session State) : Nat := starting s + s.writes.length + asyncCalls s.timer

/-! ### One operation at a time, also when a reply is sent early -/

theorem load_aside (ha : Aside s t) (hc : asyncCalls t.timer = asyncCalls s.timer) :
    load t = load s := by
  unfold load
  rw [counts_starting s t ha.reads ha.handshakes, ha.writes, hc]

theorem load_arm (s : Session State) (ms : Nat) : load (s.arm ms .handleTimer) = load s :=
  load_aside (aside_arm s _ _) (asyncCalls_rearm s.timer ms .handleTimer)

theorem load_sendReply (E : Externals) (s : Session State) : load (s.sendReply E) ≤ load s + 1 := by
  have hsend := sendReply_sending E s
  unfold load
  rw [counts_starting s _ hsend.reads hsend.handshakes, hsend.timer]
  by_cases hb : s.conn.reply.HasBuffer
  · obtain ⟨l, sent, bufs, -, -, -, -, hw⟩ := hsend.written hb
    rw [hw, List.length_append, List.length_singleton]
    omega
  · rw [(hsend.crashed hb).1]
    omega

/-- What a handler that has come as far as `d` does to the waits for its reply. -/
theorem handlerOp_calls {d d' : Deferral} {op : HandlerOp} (hn : d.next op = some d') :
    (d' = d ∧ asyncCalls (s.handlerOp E (async E) op).timer = asyncCalls s.timer ∧
      (s.handlerOp E (async E) op).conn.waitingForAsyncReply = s.conn.waitingForAsyncReply) ∨
    (d = .asked ∧ d' = .waiting ∧
      asyncCalls (s.handlerOp E (async E) op).timer = asyncCalls s.timer + 1 ∧
      (s.handlerOp E (async E) op).conn.waitingForAsyncReply = true) ∨
    (d = .waiting ∧ d' = .done ∧
      asyncCalls (s.handlerOp E (async E) op).timer = asyncCalls s.timer ∧
      (s.handlerOp E (async E) op).conn.waitingForAsyncReply = s.conn.waitingForAsyncReply) := by
  have htake : ∀ x, asyncCalls (s.takeReply x).timer = asyncCalls s.timer ∧
      (s.takeReply x).conn.waitingForAsyncReply = s.conn.waitingForAsyncReply := by
    intro x
    cases x <;> exact ⟨rfl, rfl⟩
  have hsame : d.next (.addHeader ⟨[], []⟩) = some d' → d' = d := by
    intro h
    cases d with
    | asked | waiting => exact (Option.some.inj h).symm
    | done => cases h
  cases op with
  | writeContent bytes => exact Or.inl ⟨hsame (by cases d <;> exact hn), htake _⟩
  | create status contentType extraHeaders =>
    exact Or.inl ⟨hsame (by cases d <;> exact hn), htake _⟩
  | addHeader h => exact Or.inl ⟨hsame (by cases d <;> exact hn), rfl, rfl⟩
  | resetReply => exact Or.inl ⟨hsame (by cases d <;> exact hn), rfl, rfl⟩
  | requestId idHeader => exact Or.inl ⟨hsame (by cases d <;> exact hn), rfl, rfl⟩
  | requestUuid idHeader => exact Or.inl ⟨hsame (by cases d <;> exact hn), rfl, rfl⟩
  | waitForAsyncReply =>
    cases d with
    | asked =>
      refine Or.inr (Or.inl ⟨rfl, (Option.some.inj hn).symm, ?_, rfl⟩)
      exact asyncCalls_rearm s.timer 3660000 .handleAsyncCall
    | waiting | done => cases hn
  | notifyAsyncReplyDone =>
    cases d with
    | waiting =>
      refine Or.inr (Or.inr ⟨rfl, (Option.some.inj hn).symm, ?_, rfl⟩)
      exact asyncCalls_complete s.timer .operationAborted
    | asked | done => cases hn

/-- At most one wait, and none unless the connection is marked as waiting. -/
theorem handlerOps_calls {d d' : Deferral} {ops : List HandlerOp} (hn : d.follow ops = some d')
    (h : asyncCalls s.timer ≤ 1) (hd : d = .asked → asyncCalls s.timer = 0)
    (hw : asyncCalls s.timer = 0 ∨ s.conn.waitingForAsyncReply = true) :
    asyncCalls (s.handlerOps E (async E) ops).timer ≤ 1 ∧
      (asyncCalls (s.handlerOps E (async E) ops).timer = 0 ∨
        (s.handlerOps E (async E) ops).conn.waitingForAsyncReply = true) := by
  let I := fun (d : Deferral) (t : Session State) => asyncCalls t.timer ≤ 1 ∧
    (d = .asked → asyncCalls t.timer = 0) ∧
      (asyncCalls t.timer = 0 ∨ t.conn.waitingForAsyncReply = true)
  have hop : ∀ d op d1 t, d.next op = some d1 → I d t → I d1 (t.handlerOp E (async E) op) := by
    intro d op d1 t hnext hI
    obtain ⟨h, hd, hw⟩ := hI
    dsimp only [I]
    rcases handlerOp_calls (s := t) (E := E) hnext with
      ⟨rfl, hc, hf⟩ | ⟨rfl, rfl, hc, hf⟩ | ⟨rfl, rfl, hc, hf⟩
    · rw [hc, hf]
      exact ⟨h, hd, hw⟩
    · rw [hc, hf, hd rfl]
      exact ⟨Nat.le_refl 1, fun he => Deferral.noConfusion he, Or.inr rfl⟩
    · rw [hc, hf]
      exact ⟨h, fun he => Deferral.noConfusion he, hw⟩
  obtain ⟨⟨d1, hlast⟩, -⟩ := handlerOps_follow hop hn ⟨h, hd, hw⟩
  exact ⟨hlast.1, hlast.2.2⟩

theorem load_dispatch {prepare : Session State → Session State} (hp : ∀ s, Aside s (prepare s))
    (htimer : ∀ s, (prepare s).timer = s.timer) {ops : List HandlerOp}
    (hops : (Deferral.asked.follow ops).isSome) (h : load s = 0) :
    load (s.dispatch E (async E) prepare ops) ≤ 1 := by
  obtain ⟨d, hd⟩ := Option.isSome_iff_exists.mp hops
  unfold Session.dispatch Session.handleRequest Session.andThen
  have hlog : load ((prepare s).logRequest E) = 0 :=
    (load_aside ((hp s).trans ((aside_kept E).logRequest _)) (congrArg asyncCalls (htimer s))).trans h
  generalize (prepare s).logRequest E = v at hlog ⊢
  have hzero : asyncCalls v.timer = 0 := by
    unfold load at hlog
    omega
  have haside := aside_handlerOps (E := E) (asideAsync E)
    (({ v with lent := true } : Session State).note (.dispatched v.conn.request)) ops
  have hcalls := handlerOps_calls (E := E)
    (s := ({ v with lent := true } : Session State).note (.dispatched v.conn.request)) hd
    (Nat.le_of_eq hzero |>.trans (Nat.zero_le 1)) (fun _ => hzero) (Or.inl hzero)
  dsimp only at haside hcalls ⊢
  generalize Session.handlerOps E (async E) _ ops = w at haside hcalls ⊢
  have hload : load w = asyncCalls w.timer := by
    have hrest : starting w + w.writes.length = starting v + v.writes.length := by
      rw [haside.writes, counts_starting _ w haside.reads haside.handshakes]
      rfl
    unfold load at hlog ⊢
    omega
  split
  · omega
  · split
    · have harm := load_arm w 3605000
      omega
    · rename_i hf
      have hnone := hcalls.2.resolve_right hf
      have hsend := load_sendReply E w
      omega

theorem load_badRequest (E : Externals) (s : Session State) : load (s.badRequest E) ≤ load s + 1 := by
  unfold Session.badRequest Session.andThen
  have htake : load (s.takeReply (s.conn.reply.create .badRequest Reply.textHtml 0)) = load s :=
    load_aside ((aside_kept E).takeReply s _) (congrArg asyncCalls (takeReply_counts s _).2.2.2)
  split
  · omega
  · exact (load_sendReply E _).trans (Nat.le_of_eq (congrArg (· + 1) htake))

theorem load_startRead (s : Session State) : load s.startRead = load s + 1 := by
  change s.reads + 1 + s.handshakes + s.writes.length + asyncCalls s.timer = _
  unfold load starting
  omega

theorem load_readMore (s : Session State) : load s.readMore = load s + 1 := by
  unfold Session.readMore
  rw [load_startRead, load_arm]

end Handlers

variable {E : Externals} {s t : Session E.parser.State} {ev : Event} {i : Nat}

/-- A handler waits for its reply at most once and notifies after that. Once it has returned
it does not wait again, and may do all else whenever it likes: the wait that `handle_read`
starts behind it sends its reply early, so that it often notifies when the reply is out. -/
def WaitsOnce {State : Type} (_ : Session State) : Event → Prop
  | .read .success _ ops => (Deferral.asked.follow ops).isSome
  | .handler op => (Deferral.waiting.next op).isSome
  | _ => True

instance {State : Type} (s : Session State) : (ev : Event) → Decidable (WaitsOnce s ev)
  | .read .success _ ops => inferInstanceAs (Decidable ((Deferral.asked.follow ops).isSome = true))
  | .handler op => inferInstanceAs (Decidable ((Deferral.waiting.next op).isSome = true))
  | .read .operationAborted _ _ | .read .failure _ _ | .handshake _ | .write _ _ | .expire
  | .timer _ | .asyncReplyDone => isTrue trivial

/-- What `handle_read` does before it logs the request. -/
theorem aside_requestUuid (s : Session E.parser.State) :
    Aside s (s.requestUuid E Request.defaultIdHeader) :=
  .of_same rfl rfl rfl rfl rfl

theorem load_readSucceeded (bytes : Bytes) {ops : List HandlerOp}
    (hops : (Deferral.asked.follow ops).isSome) (h : load s = 0) :
    load (s.readSucceeded E (async E) (fun s => s.requestUuid E Request.defaultIdHeader) bytes
      ops) ≤ 1 := by
  have hparse : ∀ n, load ((s.parse E bytes).note (.parsed bytes.length n)) = 0 := fun _ => h
  unfold Session.readSucceeded
  split
  · exact Nat.le_trans (Nat.le_of_eq h) (Nat.zero_le 1)
  · rename_i n _
    have hn := hparse n
    dsimp only
    split
    · have hbad := load_badRequest E ((s.parse E bytes).note (.parsed bytes.length n))
      omega
    · split
      · exact load_dispatch aside_requestUuid (fun _ => rfl) hops hn
      · rw [load_readMore]
        omega

/-- The invariant of a run. -/
structure Sole (s : Session E.parser.State) : Prop where
  load : load s ≤ 1
  closing : Sealed starting s

theorem sole_of_load (h : load s = 0) (hc : Unsealed starting s) : Sole s :=
  ⟨by omega, hc.sealed⟩

theorem handleRead_sole (h : Sole s) (hr : 0 < s.reads) (e : ErrorCode) (bytes : Bytes)
    {ops : List HandlerOp} (hd : WaitsOnce s (.read e bytes ops)) :
    Sole (handleRead E e bytes ops { s with reads := s.reads - 1 }) := by
  have hle := h.load
  unfold load starting at hle
  have hzero : load { s with reads := s.reads - 1 } = 0 := by
    change s.reads - 1 + s.handshakes + s.writes.length + asyncCalls s.timer = 0
    omega
  have hfree : Unsealed starting { s with reads := s.reads - 1 } := by
    refine ⟨h.closing.accepts, h.closing.lives_of_starts ?_, ?_, List.eq_nil_of_length_eq_zero ?_⟩
    · unfold starting
      omega
    · change s.reads - 1 + s.handshakes = 0
      omega
    · change s.writes.length = 0
      omega
  cases e with
  | operationAborted => exact sole_of_load hzero hfree
  | failure => exact sole_of_load hzero hfree
  | success =>
    exact ⟨load_readSucceeded bytes hd hzero,
      unsealed_readSucceeded (asideAsync E) aside_requestUuid bytes ops hfree counts_starting⟩

theorem handleHandshake_sole (h : Sole s) (hh : 0 < s.handshakes) (e : ErrorCode) :
    Sole (handleHandshake e { s with handshakes := s.handshakes - 1 }) := by
  have hle := h.load
  unfold load starting at hle
  have hzero : load { s with handshakes := s.handshakes - 1 } = 0 := by
    change s.reads + (s.handshakes - 1) + s.writes.length + asyncCalls s.timer = 0
    omega
  have hlives : s.closing ≠ .closed := by
    apply h.closing.lives_of_starts
    unfold starting
    omega
  have hw : s.writes = [] := by
    apply List.eq_nil_of_length_eq_zero
    omega
  have hquiet : Sole { s with handshakes := s.handshakes - 1 } :=
    ⟨by omega, h.closing.accepts, fun hc => absurd hc hlives, fun hne => absurd hw hne⟩
  cases e with
  | operationAborted => exact hquiet
  | failure => exact hquiet
  | success =>
    refine ⟨?_, sealed_startRead h.closing.accepts hlives hw⟩
    change load ({ s with handshakes := s.handshakes - 1 } : Session E.parser.State).startRead ≤ 1
    rw [load_startRead, hzero]

theorem handleWriteComplete_sole (h : Sole s) {i : Nat} (hi : i < s.writes.length) {e : ErrorCode}
    (hk : e = .success → s.conn.keepAlive = true) :
    Sole (handleWriteComplete e { s with writes := s.writes.eraseIdx i }) := by
  have hle := h.load
  have hlen := List.length_eraseIdx_of_lt hi
  unfold load starting at hle
  have hw : s.writes.eraseIdx i = [] := by
    apply List.eq_nil_of_length_eq_zero
    omega
  have hzero : load { s with writes := s.writes.eraseIdx i } = 0 := by
    change s.reads + s.handshakes + (s.writes.eraseIdx i).length + asyncCalls s.timer = 0
    omega
  have hquiet : Sealed starting { s with writes := s.writes.eraseIdx i } :=
    h.closing.completed rfl rfl (Nat.le_refl _) (fun hne => absurd hw hne)
  cases e with
  | operationAborted => exact ⟨by rw [handleWriteComplete, hzero]; exact Nat.zero_le 1, hquiet⟩
  | failure => exact ⟨by rw [handleWriteComplete, hzero]; exact Nat.zero_le 1, hquiet⟩
  | success =>
    refine ⟨?_, sealed_startRead h.closing.accepts (h.closing.lives_of_keepAlive (hk rfl)) hw⟩
    change load (((({ s with writes := s.writes.eraseIdx i } : Session E.parser.State).setReply
      s.conn.reply.reset).cancelTimer).arm 5000 .handleTimer).startRead ≤ 1
    rw [load_startRead, load_arm]
    have hcancel : load (({ s with writes := s.writes.eraseIdx i } : Session E.parser.State).setReply
        s.conn.reply.reset).cancelTimer = load { s with writes := s.writes.eraseIdx i } :=
      load_aside (.of_same rfl rfl rfl rfl rfl) (asyncCalls_complete s.timer .operationAborted)
    omega

theorem handleWait_sole (h : Sole s) {i : Nat} {c : Completion Waiter} {timer : DeadlineTimer Waiter}
    (hd : s.timer.dequeue i = some (c, timer)) :
    Sole (handleWait E c.wait c.code { s with timer := timer }) := by
  have hle := h.load
  have hcount := asyncCalls_dequeue hd
  unfold load starting at hle
  have hclosing : Sealed starting { s with timer := timer } :=
    h.closing.completed rfl rfl (Nat.le_refl _) id
  have hload : load { s with timer := timer } ≤ 1 := by
    change s.reads + s.handshakes + s.writes.length + asyncCalls timer ≤ 1
    omega
  have hnote : Sole (({ s with timer := timer } : Session E.parser.State).note (.timedOut c.wait)) :=
    ⟨hload, hclosing.aside counts_starting (aside_note _ (plain_timedOut c.wait))⟩
  unfold handleWait
  cases hw : c.wait.handler with
  | handleTimer =>
    cases c.code with
    | success => exact hnote
    | operationAborted => exact ⟨hload, hclosing⟩
    | failure => exact ⟨hload, hclosing⟩
  | handleAsyncCall =>
    cases c.code with
    | success => exact hnote
    | failure => exact ⟨hload, hclosing⟩
    | operationAborted =>
      rw [hw] at hcount
      have hone : asyncCalls s.timer = asyncCalls timer + 1 := hcount
      have hzero : load { s with timer := timer } = 0 := by
        change s.reads + s.handshakes + s.writes.length + asyncCalls timer = 0
        omega
      refine ⟨?_, sealed_sendReply E hclosing counts_starting ?_ (List.eq_nil_of_length_eq_zero ?_)⟩
      · exact (load_sendReply E _).trans (Nat.le_of_eq (congrArg (· + 1) hzero))
      · change s.reads + s.handshakes = 0
        omega
      · change s.writes.length = 0
        omega

/-- A handler that has returned does not wait for another reply. -/
theorem handlerOp_sole (h : Sole s) {op : HandlerOp} (hd : WaitsOnce s (.handler op)) :
    Sole (s.handlerOp E (async E) op) := by
  obtain ⟨d, hn⟩ := Option.isSome_iff_exists.mp hd
  have haside := aside_handlerOp (E := E) (asideAsync E) s op
  refine ⟨?_, h.closing.aside counts_starting haside⟩
  rcases handlerOp_calls (s := s) (E := E) hn with ⟨-, hc, -⟩ | ⟨hx, -⟩ | ⟨-, -, hc, -⟩
  · rw [load_aside haside hc]
    exact h.load
  · cases hx
  · rw [load_aside haside hc]
    exact h.load

/-- A write does not complete after a decision against keep-alive. -/
def KeepsOpen {State : Type} (s : Session State) (ev : Event) : Prop :=
  ∀ i, ev = .write i .success → s.conn.keepAlive = true

instance {State : Type} (s : Session State) : (ev : Event) → Decidable (KeepsOpen s ev)
  | .write i .success =>
    decidable_of_iff (s.conn.keepAlive = true) ⟨fun h _ _ => h, fun h => h i rfl⟩
  | .write _ .operationAborted | .write _ .failure | .read _ _ _ | .handshake _ | .expire
  | .timer _ | .asyncReplyDone | .handler _ => isTrue (fun _ h => nomatch h)

theorem step_sole (h : Sole s) (hd : WaitsOnce s ev) (hk : KeepsOpen s ev)
    (hs : step E s ev = some t) : Sole t := by
  cases (Session.stepped_of_step hs).2 with
  | handshake e hh => exact handleHandshake_sole h hh e
  | read e bytes ops hr hb => exact handleRead_sole h hr e bytes hd
  | write i e hi => exact handleWriteComplete_sole h hi (fun he => hk i (he ▸ rfl))
  | expire hp =>
    refine ⟨?_, h.closing.completed rfl rfl (Nat.le_refl _) id⟩
    have hsame : load { s with timer := s.timer.expire } = load s :=
      load_aside (.of_same rfl rfl rfl rfl rfl) (asyncCalls_complete s.timer .success)
    exact hsame ▸ h.load
  | timer i c timer hdeq => exact handleWait_sole h hdeq
  | asyncReplyDone hp => exact ⟨h.load, h.closing.completed rfl rfl (Nat.le_refl _) id⟩
  | handler op hl => exact handlerOp_sole h hd

/-- `handle_write_complete` always goes on reading. -/
theorem step_write (hs : step E s (.write i .success) = some t) :
    i < s.writes.length ∧ t.log = s.log ++ [.readStarted] ∧ t.reads = s.reads + 1 := by
  cases (Session.stepped_of_step hs).2 with
  | write i e hi => exact ⟨hi, rfl, rfl⟩

theorem step_honours (h : Sole s) (hd : WaitsOnce s ev) (hk : KeepsOpen s ev)
    (hs : step E s ev = some t) : Sole t ∧ Honours s ev t := by
  have ht := step_sole h hd hk hs
  refine ⟨ht, ht.closing.accepts, ?_⟩
  rintro i rfl -
  obtain ⟨hi, hl, hr⟩ := step_write hs
  have hle := h.load
  unfold load starting at hle
  have hzero : s.reads = 0 := by omega
  exact ⟨hl, hzero, by omega⟩

/-- A write that completes after a decision against keep-alive breaks the promise. -/
theorem closed_breaks (h : Sole s) (hk : ¬ KeepsOpen s ev) (hs : step E s ev = some t) :
    ¬ Honours s ev t := by
  unfold KeepsOpen at hk
  push Not at hk
  obtain ⟨i, rfl, hkeep⟩ := hk
  obtain ⟨hi, hl, -⟩ := step_write hs
  have hclosed : s.closing = .closed := by
    by_contra hlives
    exact hkeep (h.closing.linked (List.ne_nil_of_length_pos (Nat.zero_lt_of_lt hi)) hlives)
  intro hh
  have hread := hh.ended
  rw [hl] at hread
  have hok := hread.at
  rw [show closings.after .keeping s.log = .closed from hclosed] at hok
  exact hok

theorem start_sole (tag : Bytes) (junk : Uninitialised) : Sole (start E tag junk) := by
  refine ⟨Nat.le_refl 1, trivial, fun hc => ?_, fun hw => absurd rfl hw⟩
  cases hc

end HttpsConnection

/-- With disciplined handlers `http_connection` honours the header in every run, and
`https_connection`, whose handlers need only wait at most once, exactly in those runs in which
no write completes after a decision against keep-alive. -/
theorem connection_close_iff (E : Externals) (tag : Bytes) (junk : Uninitialised) (es : List Event) :
    (Along (HttpConnection.step E) Disciplined (HttpConnection.start E tag junk) es →
      Steps (HttpConnection.step E) Honours (HttpConnection.start E tag junk) es) ∧
    (∀ u, Along (HttpsConnection.step E) HttpsConnection.WaitsOnce
        (HttpsConnection.start E tag junk) es →
      runs (HttpsConnection.step E) (HttpsConnection.start E tag junk) es = some u →
      (Steps (HttpsConnection.step E) Honours (HttpsConnection.start E tag junk) es ↔
        Along (HttpsConnection.step E) HttpsConnection.KeepsOpen
          (HttpsConnection.start E tag junk) es)) := by
  constructor
  · have hstep : ∀ s ev t, HttpConnection.Settled s ∧ Sealed Session.reads s → Disciplined s ev →
        HttpConnection.step E s ev = some t →
        (HttpConnection.Settled t ∧ Sealed Session.reads t) ∧ Honours s ev t :=
      fun _ _ _ hs hd ht => HttpConnection.step_honours hs hd ht
    exact steps_of_step hstep
      ⟨HttpConnection.start_settled tag junk, HttpConnection.start_sealed tag junk⟩
  · intro u
    have hstep : ∀ s ev t, HttpsConnection.Sole s → HttpsConnection.WaitsOnce s ev →
        HttpsConnection.KeepsOpen s ev → HttpsConnection.step E s ev = some t →
        HttpsConnection.Sole t ∧ Honours s ev t :=
      fun _ _ _ hs hd hk ht => HttpsConnection.step_honours hs hd hk ht
    have hbreak : ∀ s ev t, HttpsConnection.Sole s → HttpsConnection.WaitsOnce s ev →
        ¬ HttpsConnection.KeepsOpen s ev → HttpsConnection.step E s ev = some t →
        ¬ Honours s ev t := fun _ _ _ hs _ hk ht => HttpsConnection.closed_breaks hs hk ht
    exact steps_iff_along hstep hbreak (HttpsConnection.start_sole tag junk)

/-- The bytes of a request of HTTP/1.0. -/
def oldGetBytes : Bytes := ascii "GET / HTTP/1.0" ++ [13, 10, 13, 10]

/-- A server whose clients send `GET / HTTP/1.0`, which asks for no keep-alive. -/
def oldServer : Externals :=
  ⟨tableParser [(oldGetBytes, [{ getPieces (ascii "/") with keepAlive := false }])], plainUuids⟩

/-- The request is answered with `Connection: close` and the answer is written. -/
def oldGet : List Event :=
  [.handshake .success, .read .success oldGetBytes [.create .ok Reply.textHtml 0], .write 0 .success]

theorem connection_close_iff_oldGet :
    ∃ u, runs (HttpsConnection.step oldServer) (HttpsConnection.start oldServer [] .zero)
        oldGet = some u ∧
      (Steps (HttpsConnection.step oldServer) Honours (HttpsConnection.start oldServer [] .zero)
          oldGet ↔
        Along (HttpsConnection.step oldServer) HttpsConnection.KeepsOpen
          (HttpsConnection.start oldServer [] .zero) oldGet) := by
  have hrun : ∃ u, runs (HttpsConnection.step oldServer) (HttpsConnection.start oldServer [] .zero)
      oldGet = some u := ⟨_, rfl⟩
  obtain ⟨u, hu⟩ := hrun
  exact ⟨u, hu, (connection_close_iff oldServer [] .zero oldGet).2 u (by decide +kernel) hu⟩

/-- The usual deferred request of `https_connection`, sent early and notified later, is no
disciplined run. The promise of the header is kept in it all the same. -/
example :
    let es : List Event := [.handshake .success,
      .read .success (getBytes (ascii "/")) [.waitForAsyncReply], .timer 0,
      .handler (.create .ok Reply.textHtml 0), .handler .notifyAsyncReplyDone, .write 0 .success]
    let s := HttpsConnection.start getServer [] .zero
    (runs (HttpsConnection.step getServer) s es).isSome ∧
      ¬ Along (HttpsConnection.step getServer) Disciplined s es ∧
      Along (HttpsConnection.step getServer) HttpsConnection.WaitsOnce s es ∧
      Along (HttpsConnection.step getServer) HttpsConnection.KeepsOpen s es := by
  decide +kernel

theorem oldGet_read_again :
    Along (HttpsConnection.step oldServer) Disciplined (HttpsConnection.start oldServer [] .zero)
        oldGet ∧
      ¬ Steps (HttpsConnection.step oldServer) Honours (HttpsConnection.start oldServer [] .zero)
        oldGet := by
  refine ⟨by decide +kernel, fun hsteps => ?_⟩
  obtain ⟨s, hs, t, ht, hlog, hclosed⟩ : ∃ s, runs (HttpsConnection.step oldServer)
      (HttpsConnection.start oldServer [] .zero) (oldGet.take 2) = some s ∧
      ∃ t, HttpsConnection.step oldServer s (.write 0 .success) = some t ∧
        t.log = s.log ++ .readStarted :: [] ∧ closings.after .keeping s.log = .closed :=
    ⟨_, rfl, _, rfl, rfl, rfl⟩
  have hlast := ((along_append hs).mp hsteps).2.1 t ht
  have hok := hlast.ended
  rw [hlog] at hok
  have hread := hok.at
  rw [hclosed] at hread
  exact hread

end CsiHttp.Server
