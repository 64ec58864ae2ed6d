import CsiHttp.Server.Exchange

/-!
# The stages of an exchange

A handler is done with the connection when it returns without having deferred its reply,
or when it has notified. For handlers that keep to this, `Staged` relates the log to the
pending operations. The two transports differ in how a queued call of `send_reply` comes
about; `Counting` is what the proofs need to know of it.
-/
namespace CsiHttp.Server

open Lib Lib.Text

/-- How far a handler has come with the reply it was asked for. -/
inductive Deferral where
  | asked
  | waiting
  | done
  deriving DecidableEq, Repr

/-- A handler defers at most once, and then notifies once as its last action. -/
def Deferral.next : Deferral → HandlerOp → Option Deferral
  | .asked, .waitForAsyncReply => some .waiting
  | .asked, .notifyAsyncReplyDone => none
  | .waiting, .waitForAsyncReply => none
  | .waiting, .notifyAsyncReplyDone => some .done
  | .done, _ => none
  | d, _ => some d

def Deferral.follow : Deferral → List HandlerOp → Option Deferral
  | d, [] => some d
  | d, op :: ops => (d.next op).bind (fun d' => d'.follow ops)

/-- What handlers do is disciplined: while they run, and after they have returned, when
only a handler that has deferred its reply may still use the connection. -/
def Disciplined {State : Type} (s : Session State) : Event → Prop
  | .read .success _ ops => (Deferral.asked.follow ops).isSome
  | .handler op => s.exchange = .waiting ∧ (Deferral.waiting.next op).isSome
  | _ => True

instance {State : Type} (s : Session State) : (ev : Event) → Decidable (Disciplined s ev)
  | .read .success _ ops => inferInstanceAs (Decidable ((Deferral.asked.follow ops).isSome = true))
  | .handler op =>
    inferInstanceAs (Decidable (s.exchange = .waiting ∧ (Deferral.waiting.next op).isSome = true))
  | .read .operationAborted _ _ | .read .failure _ _ | .handshake _ | .write _ _ | .expire
  | .timer _ | .asyncReplyDone => isTrue trivial

section Stages

variable {State : Type} {s t : Session State}

/-- The pending operations that go with each state of an exchange. `k` is the number of
calls of `send_reply` that are queued while a deferred reply is awaited. -/
def Stage (k starts due : Nat) (s : Session State) : Exchange → Prop
  | .idle => starts ≤ 1 ∧ s.writes = [] ∧ due = 0 ∧ s.conn.waitingForAsyncReply = false
  | .dispatched => starts = 0 ∧ s.writes = [] ∧ due = 0 ∧ s.conn.waitingForAsyncReply = false
  | .waiting => starts = 0 ∧ s.writes = [] ∧ due = k ∧ s.conn.waitingForAsyncReply = true
  | .notified r => starts = 0 ∧ s.writes = [] ∧ due = 1 ∧ s.conn.waitingForAsyncReply = true ∧
      s.conn.reply = r
  | .sending _ => starts = 0 ∧ s.writes = [] ∧ due = 0 ∧ s.conn.waitingForAsyncReply = false
  | .replied => starts = 0 ∧ s.writes.length ≤ 1 ∧ due = 0 ∧
      s.conn.waitingForAsyncReply = false ∧ ∀ w ∈ s.writes, w.reply = s.conn.reply

structure Staged (k starts due : Nat) (s : Session State) : Prop where
  accepts : exchanges.Accepts .idle s.log
  stage : Stage k starts due s s.exchange

/-- Observations that leave an exchange where it is. -/
def Obs.Still (o : Obs) : Prop := ∀ q, exchanges.next q o = q ∧ exchanges.ok q o

theorem still_callbacks (cbs : List Callback) : ∀ o ∈ cbs.map Obs.callback, o.Still := by
  rw [List.forall_mem_map]
  exact fun _ _ _ => ⟨rfl, trivial⟩

theorem exchange_append {l : List Obs} (hl : t.log = s.log ++ l) :
    t.exchange = exchanges.after s.exchange l := by
  unfold Session.exchange
  rw [hl, Monitor.after_append]

theorem accepts_append {l : List Obs} (hl : t.log = s.log ++ l)
    (h : exchanges.Accepts .idle s.log) (hacc : exchanges.Accepts s.exchange l) :
    exchanges.Accepts .idle t.log := by
  rw [hl, Monitor.accepts_append]
  exact ⟨h, hacc⟩

theorem exchange_still {l : List Obs} (hl : t.log = s.log ++ l) (hstill : ∀ o ∈ l, o.Still) :
    t.exchange = s.exchange := by
  rw [exchange_append hl]
  exact Monitor.after_of_still fun o ho => (hstill o ho _).1

/-- Actions that touch neither the writes, nor the reply, nor the flag. -/
theorem Staged.of_still {k a b : Nat} {l : List Obs} (h : Staged k a b s)
    (hl : t.log = s.log ++ l) (hstill : ∀ o ∈ l, o.Still) (hw : t.writes = s.writes)
    (hf : t.conn.waitingForAsyncReply = s.conn.waitingForAsyncReply)
    (hr : t.conn.reply = s.conn.reply) : Staged k a b t := by
  refine ⟨accepts_append hl h.accepts (Monitor.accepts_of_still fun o ho => hstill o ho _), ?_⟩
  rw [exchange_still hl hstill]
  have hs := h.stage
  cases hx : s.exchange <;> rw [hx] at hs <;> simpa only [Stage, hw, hf, hr] using hs

/-! ## Sending the reply -/

variable (E : Externals)

/-- The connection just before `send_reply` turns to the buffers. -/
structure Prepared (s t : Session State) : Prop where
  log : ∃ id method, t.log =
    s.log ++ [.replying s.conn.reply, .requestIdLogged id, .methodLogged method]
  writes : t.writes = s.writes
  waiting : t.conn.waitingForAsyncReply = false
  reply : t.conn.reply = s.conn.reply ∨ t.conn.reply = s.conn.reply.add Session.connectionClose
  fault : t.fault = s.fault

theorem sendReply_prepared (s : Session State) :
    Prepared s ((((s.note (.replying s.conn.reply)).logRequest E).setWaiting false).addClose) := by
  have hlog : ∃ id method, ((s.note (.replying s.conn.reply)).logRequest E).log =
      s.log ++ [.replying s.conn.reply, .requestIdLogged id, .methodLogged method] :=
    ⟨_, _, (List.append_assoc (s.log ++ [_]) [_] [_]).trans (List.append_assoc s.log _ _)⟩
  unfold Session.addClose
  split
  · exact ⟨hlog, rfl, rfl, Or.inl rfl, rfl⟩
  · exact ⟨hlog, rfl, rfl, Or.inr rfl, rfl⟩

theorem sendReply_log (s : Session State) :
    ∃ l, (s.sendReply E).log = s.log ++ .replying s.conn.reply :: l := by
  obtain ⟨id, method, hl⟩ := (sendReply_prepared E s).log
  unfold Session.sendReply Session.startWrite
  split
  · exact ⟨_, hl⟩
  · rename_i r buffers _
    refine ⟨[.requestIdLogged id, .methodLogged method, .replied r buffers], ?_⟩
    exact (congrArg (· ++ [.replied r buffers]) hl).trans (List.append_assoc _ _ _)

/-- A reply leaves alone what is under way, its write apart. -/
theorem counts_kept : Session.KeptBySending E (fun s t : Session State => t.reads = s.reads ∧
    t.posted = s.posted ∧ t.handshakes = s.handshakes ∧ t.timer = s.timer) where
  refl _ := ⟨rfl, rfl, rfl, rfl⟩
  trans := by
    intro s t u h h'
    obtain ⟨hr, hp, hh, ht⟩ := h
    obtain ⟨hr', hp', hh', ht'⟩ := h'
    exact ⟨hr'.trans hr, hp'.trans hp, hh'.trans hh, ht'.trans ht⟩
  crash _ _ := ⟨rfl, rfl, rfl, rfl⟩
  setReply _ _ := ⟨rfl, rfl, rfl, rfl⟩
  requestId _ _ := ⟨rfl, rfl, rfl, rfl⟩
  idLogged _ := ⟨rfl, rfl, rfl, rfl⟩
  methodLogged _ := ⟨rfl, rfl, rfl, rfl⟩
  replying _ := ⟨rfl, rfl, rfl, rfl⟩
  setWaiting _ _ := ⟨rfl, rfl, rfl, rfl⟩
  replied _ _ _ := ⟨rfl, rfl, rfl, rfl⟩

theorem sendReply_counts (s : Session State) :
    (s.sendReply E).reads = s.reads ∧ (s.sendReply E).posted = s.posted ∧
      (s.sendReply E).handshakes = s.handshakes ∧ (s.sendReply E).timer = s.timer :=
  (counts_kept E).sendReply s

theorem sendReply_timer (s : Session State) : (s.sendReply E).timer = s.timer :=
  (sendReply_counts E s).2.2.2

theorem badRequest_timer (s : Session State) : (s.badRequest E).timer = s.timer :=
  ((counts_kept E).badRequest s).2.2.2

/-- `send_reply`, called when a reply may be sent and nothing else is going on, leaves one
write on its way, unless it crashes. -/
theorem sendReply_staged (k : Nat) (h : exchanges.Accepts .idle s.log)
    (hok : exchanges.ok s.exchange (.replying s.conn.reply)) (hw : s.writes = []) :
    Staged k 0 0 (s.sendReply E) ∧
      ((s.sendReply E).fault = none → (s.sendReply E).exchange = .replied) := by
  unfold Session.sendReply
  have hp := sendReply_prepared E s
  generalize (((s.note (.replying s.conn.reply)).logRequest E).setWaiting false).addClose = u at hp ⊢
  obtain ⟨id, method, hl⟩ := hp.log
  have hx : u.exchange = .sending s.conn.reply := exchange_append hl
  have hacc : exchanges.Accepts .idle u.log :=
    accepts_append hl h ⟨hok, trivial, trivial, trivial⟩
  unfold Session.startWrite
  cases hb : u.conn.reply.toBuffers with
  | error f =>
    refine ⟨⟨hacc, ?_⟩, fun hn => by cases hn⟩
    change Stage k 0 0 (u.crash f) u.exchange
    rw [hx]
    exact ⟨rfl, hp.writes.trans hw, rfl, hp.waiting⟩
  | ok p =>
    obtain ⟨r, buffers⟩ := p
    have hsent : s.conn.reply.SentAs r buffers := by
      rcases hp.reply with hr | hr
      · exact Or.inl (hr ▸ hb)
      · exact Or.inr (hr ▸ hb)
    dsimp only
    have hx' : exchanges.after .idle (u.log ++ [.replied r buffers]) = .replied := by
      rw [Monitor.after_append]
      rfl
    refine ⟨⟨?_, ?_⟩, fun _ => hx'⟩
    · exact Monitor.accepts_append.mpr ⟨hacc, ⟨s.conn.reply, hx, hsent⟩, trivial⟩
    · change Stage k 0 0 _ (exchanges.after .idle (u.log ++ [.replied r buffers]))
      rw [hx']
      have hone : u.writes ++ [Write.mk r buffers] = [Write.mk r buffers] := by
        rw [hp.writes, hw, List.nil_append]
      refine ⟨rfl, (congrArg List.length hone).le, rfl, hp.waiting, fun w hmem => ?_⟩
      change w ∈ u.writes ++ [Write.mk r buffers] at hmem
      rw [hone] at hmem
      obtain rfl := List.mem_singleton.mp hmem
      rfl

/-! ## The handler at work -/

/-- How a transport counts: `starts` the operations that end in a read, `due` the queued
calls of `send_reply`. -/
structure Counting (k : Nat) (starts due : Session State → Nat) (A : AsyncReply State) : Prop where
  same : ∀ s t : Session State, t.reads = s.reads → t.posted = s.posted →
    t.handshakes = s.handshakes → t.timer = s.timer → starts t = starts s ∧ due t = due s
  rearm : ∀ s ms, starts (s.arm ms .handleTimer) = starts s ∧ due (s.arm ms .handleTimer) = due s
  startRead : ∀ s, starts s.startRead = starts s + 1 ∧ due s.startRead = due s
  wait : ∀ s, starts (A.waitForAsyncReply s) = starts s ∧ due (A.waitForAsyncReply s) = due s + k
  notify : ∀ s, starts (A.notifyAsyncReplyDone s) = starts s ∧
    due (A.notifyAsyncReplyDone s) + k = due s + 1
  waits : ∀ s, (A.waitForAsyncReply s).log = s.log ++ [.deferred] ∧
    (A.waitForAsyncReply s).writes = s.writes ∧
    (A.waitForAsyncReply s).conn.waitingForAsyncReply = true
  notifies : ∀ s, (∃ id, (A.notifyAsyncReplyDone s).log =
      s.log ++ [.notified s.conn.reply, .requestIdLogged id]) ∧
    (A.notifyAsyncReplyDone s).writes = s.writes ∧
    (A.notifyAsyncReplyDone s).conn.reply = s.conn.reply ∧
    (A.notifyAsyncReplyDone s).conn.waitingForAsyncReply = s.conn.waitingForAsyncReply

/-- The state of the exchange while a handler has come so far. -/
def Deferral.At : Deferral → Exchange → Prop
  | .asked, x => x = .dispatched
  | .waiting, x => x = .waiting
  | .done, x => ∃ r, x = .notified r

/-- While a handler works on the reply it may change it at will. -/
theorem Staged.of_reply {k a b : Nat} (h : Staged k a b s)
    (hx : s.exchange = .dispatched ∨ s.exchange = .waiting) (hl : t.log = s.log)
    (hw : t.writes = s.writes)
    (hf : t.conn.waitingForAsyncReply = s.conn.waitingForAsyncReply) :
    Staged k a b t ∧ t.exchange = s.exchange := by
  have he : t.exchange = s.exchange := by
    unfold Session.exchange
    rw [hl]
  refine ⟨⟨hl ▸ h.accepts, ?_⟩, he⟩
  have hs := h.stage
  rw [he]
  rcases hx with hx | hx <;> rw [hx] at hs ⊢ <;> simpa only [Stage, hw, hf] using hs

theorem takeReply_staged {k a b : Nat} (h : Staged k a b s)
    (hx : s.exchange = .dispatched ∨ s.exchange = .waiting) (x : Except Fault Reply) :
    Staged k a b (s.takeReply x) ∧ (s.takeReply x).exchange = s.exchange := by
  cases x with
  | ok r => exact h.of_reply hx rfl rfl rfl
  | error f => exact h.of_reply hx rfl rfl rfl

theorem takeReply_counts (s : Session State) (x : Except Fault Reply) :
    (s.takeReply x).reads = s.reads ∧ (s.takeReply x).posted = s.posted ∧
      (s.takeReply x).handshakes = s.handshakes ∧ (s.takeReply x).timer = s.timer := by
  cases x <;> exact ⟨rfl, rfl, rfl, rfl⟩

variable {E}
variable {k : Nat} {starts due : Session State → Nat} {A : AsyncReply State} {d d' : Deferral}

/-- The stages at which a handler may change the reply. -/
theorem Deferral.open_of_next (hd : d.At s.exchange) (hn : d.next (.addHeader ⟨[], []⟩) = some d') :
    (s.exchange = .dispatched ∨ s.exchange = .waiting) ∧ d = d' := by
  cases d with
  | asked => exact ⟨Or.inl hd, Option.some.inj hn⟩
  | waiting => exact ⟨Or.inr hd, Option.some.inj hn⟩
  | done => cases hn

theorem waitForAsyncReply_staged (hC : Counting k starts due A)
    (h : Staged k (starts s) (due s) s) (hx : s.exchange = .dispatched) :
    Staged k (starts (A.waitForAsyncReply s)) (due (A.waitForAsyncReply s)) (A.waitForAsyncReply s) ∧
      (A.waitForAsyncReply s).exchange = .waiting := by
  obtain ⟨hl, hw, hf⟩ := hC.waits s
  obtain ⟨hstarts', hdue'⟩ := hC.wait s
  have hs := h.stage
  rw [hx] at hs
  obtain ⟨hstarts, hwrites, hdue, -⟩ := hs
  have hx' : (A.waitForAsyncReply s).exchange = .waiting := exchange_append hl
  refine ⟨⟨accepts_append hl h.accepts ⟨hx, trivial⟩, ?_⟩, hx'⟩
  rw [hx']
  refine ⟨hstarts'.trans hstarts, hw.trans hwrites, ?_, hf⟩
  rw [hdue', hdue, Nat.zero_add]

theorem notifyAsyncReplyDone_staged (hC : Counting k starts due A)
    (h : Staged k (starts s) (due s) s) (hx : s.exchange = .waiting) :
    Staged k (starts (A.notifyAsyncReplyDone s)) (due (A.notifyAsyncReplyDone s))
        (A.notifyAsyncReplyDone s) ∧
      (A.notifyAsyncReplyDone s).exchange = .notified s.conn.reply := by
  obtain ⟨⟨id, hl⟩, hw, hr, hf⟩ := hC.notifies s
  obtain ⟨hstarts', hcount⟩ := hC.notify s
  have hs := h.stage
  rw [hx] at hs
  obtain ⟨hstarts, hwrites, hdue, hwaiting⟩ := hs
  have hx' : (A.notifyAsyncReplyDone s).exchange = .notified s.conn.reply := exchange_append hl
  refine ⟨⟨accepts_append hl h.accepts ⟨hx, trivial, trivial⟩, ?_⟩, hx'⟩
  rw [hx']
  refine ⟨hstarts'.trans hstarts, hw.trans hwrites, ?_, hf.trans hwaiting, hr⟩
  omega

/-- One action of a disciplined handler. -/
theorem handlerOp_staged (hC : Counting k starts due A) (h : Staged k (starts s) (due s) s)
    (hd : d.At s.exchange) {op : HandlerOp} (hn : d.next op = some d') :
    Staged k (starts (s.handlerOp E A op)) (due (s.handlerOp E A op)) (s.handlerOp E A op) ∧
      d'.At (s.handlerOp E A op).exchange := by
  have hreply : ∀ x, d.next (.addHeader ⟨[], []⟩) = some d' →
      Staged k (starts (s.takeReply x)) (due (s.takeReply x)) (s.takeReply x) ∧
        d'.At (s.takeReply x).exchange := by
    intro x hn
    obtain ⟨h1, h2, h3, h4⟩ := takeReply_counts s x
    obtain ⟨hs1, hs2⟩ := hC.same s (s.takeReply x) h1 h2 h3 h4
    obtain ⟨hopen, rfl⟩ := Deferral.open_of_next hd hn
    obtain ⟨hst, hx⟩ := takeReply_staged h hopen x
    rw [hs1, hs2, hx]
    exact ⟨hst, hd⟩
  have hids : ∀ u : Session State, u.log = s.log → u.writes = s.writes →
      u.conn.waitingForAsyncReply = s.conn.waitingForAsyncReply → u.conn.reply = s.conn.reply →
      starts u = starts s ∧ due u = due s → d.next (.addHeader ⟨[], []⟩) = some d' →
      Staged k (starts u) (due u) u ∧ d'.At u.exchange := by
    intro u hl hw hf hr hcount hn
    have hl' : u.log = s.log ++ [] := by rw [hl, List.append_nil]
    obtain ⟨-, rfl⟩ := Deferral.open_of_next hd hn
    rw [hcount.1, hcount.2, exchange_still hl' (List.forall_mem_nil _)]
    exact ⟨h.of_still hl' (List.forall_mem_nil _) hw hf hr, hd⟩
  cases op with
  | writeContent bytes =>
    exact hreply _ (by cases d <;> exact hn)
  | create status contentType extraHeaders =>
    exact hreply _ (by cases d <;> exact hn)
  | addHeader hdr =>
    exact hreply (.ok (s.conn.reply.add hdr)) (by cases d <;> exact hn)
  | resetReply =>
    exact hreply (.ok s.conn.reply.reset) (by cases d <;> exact hn)
  | requestId idHeader =>
    exact hids _ rfl rfl rfl rfl (hC.same _ _ rfl rfl rfl rfl) (by cases d <;> exact hn)
  | requestUuid idHeader =>
    exact hids _ rfl rfl rfl rfl (hC.same _ _ rfl rfl rfl rfl) (by cases d <;> exact hn)
  | waitForAsyncReply =>
    cases d with
    | asked =>
      cases hn
      exact waitForAsyncReply_staged hC h hd
    | waiting => cases hn
    | done => cases hn
  | notifyAsyncReplyDone =>
    cases d with
    | asked => cases hn
    | waiting =>
      cases hn
      obtain ⟨hst, hx⟩ := notifyAsyncReplyDone_staged hC h hd
      exact ⟨hst, _, hx⟩
    | done => cases hn

/-- What each action of a disciplined handler keeps at every stage of its deferral: the
handler ends at the stage it should unless the program has crashed on the way. -/
theorem handlerOps_follow {I : Deferral → Session State → Prop} {ops : List HandlerOp}
    (hop : ∀ d op d' s, d.next op = some d' → I d s → I d' (s.handlerOp E A op))
    (hn : d.follow ops = some d') (h : I d s) :
    (∃ d1, I d1 (s.handlerOps E A ops)) ∧
      ((s.handlerOps E A ops).fault = none → I d' (s.handlerOps E A ops)) := by
  induction ops generalizing s d with
  | nil =>
    obtain rfl := Option.some.inj hn
    exact ⟨⟨d, h⟩, fun _ => h⟩
  | cons op ops ih =>
    obtain ⟨d1, hd1, hn⟩ := Option.bind_eq_some_iff.mp hn
    have hone := hop d op d1 s hd1 h
    unfold Session.handlerOps Session.andThen
    by_cases hf : (s.handlerOp E A op).fault.isSome
    · rw [if_pos hf]
      refine ⟨⟨d1, hone⟩, fun hnone => ?_⟩
      rw [hnone] at hf
      cases hf
    · rw [if_neg hf]
      exact ih hn hone

/-- A disciplined handler from the first to the last of its actions. -/
theorem handlerOps_staged (hC : Counting k starts due A) {ops : List HandlerOp}
    (h : Staged k (starts s) (due s) s) (hd : d.At s.exchange)
    (hn : d.follow ops = some d') :
    Staged k (starts (s.handlerOps E A ops)) (due (s.handlerOps E A ops)) (s.handlerOps E A ops) ∧
      ((s.handlerOps E A ops).fault = none → d'.At (s.handlerOps E A ops).exchange) := by
  obtain ⟨hlast, hend⟩ := handlerOps_follow
    (I := fun d t => Staged k (starts t) (due t) t ∧ d.At t.exchange)
    (fun _ _ _ _ hnext h => handlerOp_staged hC h.1 h.2 hnext) hn ⟨h, hd⟩
  exact ⟨hlast.elim fun _ h => h.1, fun hnone => (hend hnone).2⟩

/-! ## A read -/

/-- Between two events no handler is at work on a request that it has not deferred. -/
structure Settled (k : Nat) (starts due : Session State → Nat) (s : Session State) : Prop where
  staged : Staged k (starts s) (due s) s
  answered : s.fault = none → s.exchange ≠ .dispatched

theorem Settled.of_still {l : List Obs} (h : Settled k starts due s) (hl : t.log = s.log ++ l)
    (hstill : ∀ o ∈ l, o.Still) (hw : t.writes = s.writes) (hc : t.conn = s.conn)
    (hf : t.fault = s.fault) (hs : starts t = starts s) (hd : due t = due s) :
    Settled k starts due t := by
  refine ⟨?_, fun hn => ?_⟩
  · rw [hs, hd]
    exact h.staged.of_still hl hstill hw (congrArg _ hc) (congrArg _ hc)
  · rw [exchange_still hl hstill]
    exact h.answered (hf ▸ hn)

/-- Only an idle connection has started a read, -/
theorem Staged.idle_of_starts {a b : Nat} (h : Staged k a b s) (ha : a ≠ 0) :
    s.exchange = .idle := by
  have hs := h.stage
  cases hx : s.exchange with
  | idle => rfl
  | dispatched | waiting | notified _ | sending _ | replied =>
    rw [hx] at hs
    exact absurd hs.1 ha

/-- and only one that has replied has a write on its way. -/
theorem Staged.replied_of_writes {a b : Nat} (h : Staged k a b s) (hw : s.writes ≠ []) :
    s.exchange = .replied := by
  have hs := h.stage
  cases hx : s.exchange with
  | replied => rfl
  | idle | dispatched | waiting | notified _ | sending _ =>
    rw [hx] at hs
    exact absurd hs.2.1 hw

/-- A completed write was the only one. -/
theorem Staged.written {a b i : Nat} (h : Staged k a b s) (hi : i < s.writes.length) :
    s.exchange = .replied ∧ a = 0 ∧ s.writes.eraseIdx i = [] ∧ b = 0 ∧
      s.conn.waitingForAsyncReply = false := by
  have hx := h.replied_of_writes (List.ne_nil_of_length_pos (Nat.zero_lt_of_lt hi))
  have hs := h.stage
  rw [hx] at hs
  obtain ⟨ha, hw, hb, hf, -⟩ := hs
  refine ⟨hx, ha, List.eq_nil_of_length_eq_zero ?_, hb, hf⟩
  rw [List.length_eraseIdx_of_lt hi]
  omega

/-- What handlers do to a deferred reply. -/
theorem handler_settled (hC : Counting k starts due A) (h : Settled k starts due s)
    {op : HandlerOp} (hd : Disciplined s (.handler op)) :
    Settled k starts due (s.handlerOp E A op) := by
  obtain ⟨hx, hnext⟩ := hd
  obtain ⟨d, hn⟩ := Option.isSome_iff_exists.mp hnext
  obtain ⟨hst, hat⟩ := handlerOp_staged (E := E) (d := .waiting) hC h.staged hx hn
  refine ⟨hst, fun _ he => ?_⟩
  cases d with
  | asked => cases op <;> cases hn
  | waiting => exact absurd (hat.symm.trans he) Exchange.noConfusion
  | done =>
    obtain ⟨r, hr⟩ := hat
    exact absurd (hr.symm.trans he) Exchange.noConfusion

/-- What `handle_read` does before it logs the request must leave the exchange alone. -/
structure Gentle (prepare : Session State → Session State) : Prop where
  log : ∀ s, (prepare s).log = s.log
  writes : ∀ s, (prepare s).writes = s.writes
  waiting : ∀ s, (prepare s).conn.waitingForAsyncReply = s.conn.waitingForAsyncReply
  reply : ∀ s, (prepare s).conn.reply = s.conn.reply
  reads : ∀ s, (prepare s).reads = s.reads
  posted : ∀ s, (prepare s).posted = s.posted
  handshakes : ∀ s, (prepare s).handshakes = s.handshakes
  timer : ∀ s, (prepare s).timer = s.timer

/-- The connection is free to answer: nothing is on its way. -/
structure Free (s : Session State) (starts due : Nat) : Prop where
  accepts : exchanges.Accepts .idle s.log
  idle : s.exchange = .idle
  starts : starts = 0
  writes : s.writes = []
  due : due = 0
  waiting : s.conn.waitingForAsyncReply = false

theorem Free.staged {a b : Nat} (h : Free s a b) : Staged k a b s := by
  refine ⟨h.accepts, ?_⟩
  rw [h.idle]
  exact ⟨h.starts ▸ Nat.zero_le 1, h.writes, h.due, h.waiting⟩

theorem Free.of_still {a b : Nat} {l : List Obs} (h : Free s a b) (hl : t.log = s.log ++ l)
    (hstill : ∀ o ∈ l, o.Still) (hw : t.writes = s.writes)
    (hf : t.conn.waitingForAsyncReply = s.conn.waitingForAsyncReply) : Free t a b := by
  refine ⟨accepts_append hl h.accepts (Monitor.accepts_of_still fun o ho => hstill o ho _), ?_,
    h.starts, hw.trans h.writes, h.due, hf.trans h.waiting⟩
  rw [exchange_still hl hstill]
  exact h.idle

/-- Start a read when nothing else is on its way. -/
theorem startRead_settled (hC : Counting k starts due A) (h : exchanges.Accepts .idle s.log)
    (hx : s.exchange = .idle ∨ s.exchange = .replied) (hstarts : starts s = 0)
    (hw : s.writes = []) (hdue : due s = 0) (hf : s.conn.waitingForAsyncReply = false) :
    Settled k starts due s.startRead := by
  have hidle : s.startRead.exchange = .idle := exchange_append (l := [.readStarted]) rfl
  obtain ⟨h1, h2⟩ := hC.startRead s
  refine ⟨⟨accepts_append (l := [.readStarted]) rfl h ⟨hx, trivial⟩, ?_⟩, fun _ => ?_⟩
  · rw [hidle]
    exact ⟨by omega, hw, by omega, hf⟩
  · rw [hidle]
    exact Exchange.noConfusion

theorem sendReply_settled (hC : Counting k starts due A) (h : exchanges.Accepts .idle s.log)
    (hok : exchanges.ok s.exchange (.replying s.conn.reply)) (hstarts : starts s = 0)
    (hw : s.writes = []) (hdue : due s = 0) : Settled k starts due (s.sendReply E) := by
  obtain ⟨h1, h2, h3, h4⟩ := sendReply_counts E s
  obtain ⟨hs1, hs2⟩ := hC.same s (s.sendReply E) h1 h2 h3 h4
  obtain ⟨hst, hx⟩ := sendReply_staged E k h hok hw
  refine ⟨?_, fun hn => ?_⟩
  · rw [hs1, hs2, hstarts, hdue]
    exact hst
  · rw [hx hn]
    exact Exchange.noConfusion

theorem badRequest_settled (hC : Counting k starts due A) (h : Free s (starts s) (due s)) :
    Settled k starts due (s.badRequest E) := by
  unfold Session.badRequest Session.andThen
  generalize s.conn.reply.create .badRequest Reply.textHtml 0 = x
  obtain ⟨h1, h2, h3, h4⟩ := takeReply_counts s x
  obtain ⟨hs1, hs2⟩ := hC.same s (s.takeReply x) h1 h2 h3 h4
  have hfree : Free (s.takeReply x) (starts (s.takeReply x)) (due (s.takeReply x)) := by
    rw [hs1, hs2]
    cases x <;> exact h.of_still (List.append_nil _).symm (List.forall_mem_nil _) rfl rfl
  split
  · refine ⟨hfree.staged, fun _ => ?_⟩
    rw [hfree.idle]
    exact Exchange.noConfusion
  · exact sendReply_settled hC hfree.accepts (Or.inl hfree.idle) hfree.starts hfree.writes hfree.due

theorem readMore_settled (hC : Counting k starts due A) (h : Free s (starts s) (due s)) :
    Settled k starts due s.readMore := by
  obtain ⟨h1, h2⟩ := hC.rearm s 5000
  exact startRead_settled hC h.accepts (Or.inl h.idle) (h1.trans h.starts) h.writes
    (h2.trans h.due) h.waiting

theorem logRequest_log (s : Session State) :
    ∃ id method, (s.logRequest E).log = s.log ++ [.requestIdLogged id, .methodLogged method] :=
  ⟨_, _, List.append_assoc s.log [_] [_]⟩

/-- The connection when the handler is called. -/
theorem asked_staged (hC : Counting k starts due A) {prepare : Session State → Session State}
    (hp : Gentle prepare) (h : Free s (starts s) (due s))
    (ht : t = ({ (prepare s).logRequest E with lent := true } : Session State).note
      (.dispatched ((prepare s).logRequest E).conn.request)) :
    Staged k (starts t) (due t) t ∧ t.exchange = .dispatched := by
  obtain ⟨id, method, hl⟩ := logRequest_log (E := E) (prepare s)
  have hlog : t.log = s.log ++ [.requestIdLogged id, .methodLogged method,
      .dispatched ((prepare s).logRequest E).conn.request] := by
    subst ht
    change ((prepare s).logRequest E).log ++ _ = _
    rw [hl, hp.log, List.append_assoc]
    rfl
  have hx := exchange_append hlog
  rw [h.idle] at hx
  have hsame : starts t = starts s ∧ due t = due s := by
    subst ht
    exact hC.same _ _ (hp.reads s) (hp.posted s) (hp.handshakes s) (hp.timer s)
  refine ⟨⟨accepts_append hlog h.accepts ?_, ?_⟩, hx⟩
  · rw [h.idle]
    exact ⟨trivial, trivial, rfl, trivial⟩
  · rw [hx]
    subst ht
    exact ⟨hsame.1.trans h.starts, (hp.writes s).trans h.writes, hsame.2.trans h.due,
      (hp.waiting s).trans h.waiting⟩

/-- A request is passed to a disciplined handler, which may defer its reply. -/
theorem dispatch_settled (hC : Counting k starts due A) {prepare : Session State → Session State}
    (hp : Gentle prepare) {ops : List HandlerOp} (hops : (Deferral.asked.follow ops).isSome)
    (h : Free s (starts s) (due s)) : Settled k starts due (s.dispatch E A prepare ops) := by
  obtain ⟨d, hd⟩ := Option.isSome_iff_exists.mp hops
  unfold Session.dispatch Session.handleRequest
  obtain ⟨hst, hx⟩ := asked_staged (E := E) hC hp h rfl
  obtain ⟨hst', hx'⟩ := handlerOps_staged (E := E) (d := .asked) hC hst hx hd
  dsimp only at hst' hx' ⊢
  generalize Session.handlerOps E A _ ops = v at hst' hx' ⊢
  unfold Session.andThen
  have hs := hst'.stage
  by_cases hf : v.fault.isSome
  · rw [if_pos hf]
    refine ⟨hst', fun hn => ?_⟩
    rw [hn] at hf
    cases hf
  · rw [if_neg hf]
    dsimp only
    have hn : v.fault = none := by simpa using hf
    obtain ⟨h1, h2⟩ := hC.rearm v 3605000
    have hrearm : v.exchange ≠ .dispatched → Settled k starts due (v.arm 3605000 .handleTimer) := by
      intro hne
      refine ⟨?_, fun _ => hne⟩
      rw [h1, h2]
      exact hst'.of_still (List.append_nil _).symm (List.forall_mem_nil _) rfl rfl rfl
    cases d with
    | asked =>
      have hx : v.exchange = .dispatched := hx' hn
      rw [hx] at hs
      obtain ⟨hstarts, hw, hdue, hwait⟩ := hs
      rw [hwait, if_neg Bool.false_ne_true]
      exact sendReply_settled hC hst'.accepts (Or.inr (Or.inl hx)) hstarts hw hdue
    | waiting =>
      have hx : v.exchange = .waiting := hx' hn
      rw [hx] at hs
      rw [hs.2.2.2, if_pos rfl]
      exact hrearm (hx ▸ Exchange.noConfusion)
    | done =>
      obtain ⟨r, hx⟩ : ∃ r, v.exchange = .notified r := hx' hn
      rw [hx] at hs
      rw [hs.2.2.2.1, if_pos rfl]
      exact hrearm (hx ▸ Exchange.noConfusion)

end Stages

section Reads

variable {E : Externals} {A : AsyncReply E.parser.State} {s : Session E.parser.State}
variable {k : Nat} {starts due : Session E.parser.State → Nat}
variable {prepare : Session E.parser.State → Session E.parser.State}

theorem Free.parse {a b : Nat} (h : Free s a b) (bytes : Bytes) : Free (s.parse E bytes) a b :=
  h.of_still rfl (still_callbacks _) rfl (s.conn.httpParse_waiting bytes)

theorem Free.parsed {a b : Nat} (h : Free s a b) (bytes : Bytes) (n : Nat) :
    Free ((s.parse E bytes).note (.parsed bytes.length n)) a b :=
  (h.parse bytes).of_still (l := [.parsed bytes.length n]) rfl
    (List.forall_mem_singleton.mpr fun _ => ⟨rfl, trivial⟩) rfl rfl

theorem readSucceeded_settled (hC : Counting k starts due A) (hp : Gentle prepare)
    (bytes : Bytes) {ops : List HandlerOp} (hops : (Deferral.asked.follow ops).isSome)
    (h : Free s (starts s) (due s)) :
    Settled k starts due (s.readSucceeded E A prepare bytes ops) := by
  have hsame : ∀ t : Session E.parser.State, t.reads = s.reads → t.posted = s.posted →
      t.handshakes = s.handshakes → t.timer = s.timer → Free t (starts s) (due s) →
      Free t (starts t) (due t) := by
    intro t hr hp hh ht hfree
    obtain ⟨h1, h2⟩ := hC.same s t hr hp hh ht
    rwa [h1, h2]
  have hnote : ∀ n, Free ((s.parse E bytes).note (.parsed bytes.length n))
      (starts ((s.parse E bytes).note (.parsed bytes.length n)))
      (due ((s.parse E bytes).note (.parsed bytes.length n))) :=
    fun n => hsame _ rfl rfl rfl rfl (h.parsed bytes n)
  unfold Session.readSucceeded
  split
  · rename_i f hf
    have hcrash : Free ((s.parse E bytes).crash f) (starts s) (due s) :=
      (h.parse bytes).of_still (List.append_nil _).symm (List.forall_mem_nil _) rfl rfl
    exact ⟨(hsame ((s.parse E bytes).crash f) rfl rfl rfl rfl hcrash).staged, fun hn => by cases hn⟩
  · rename_i n hn
    dsimp only
    split
    · exact badRequest_settled hC (hnote n)
    · split
      · exact dispatch_settled hC hp hops (hnote n)
      · exact readMore_settled hC (hnote n)

end Reads

end CsiHttp.Server
