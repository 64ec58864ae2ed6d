import CsiHttp.Server.HttpServer
import CsiHttp.Server.KeepAlive
import CsiHttp.Server.RequestId

/-!
# The configured request id header

Both connections give a completed request its id before they call the handler, and with the
default header name: `http_connection` through `request_id`, `https_connection` through
`request_uuid`. On `http_connection` disciplined handlers cannot have asked for the id before.
-/
namespace CsiHttp.Server

open Lib Lib.Text Lib.Runs

namespace HttpConnection

theorem keeping (E : Externals) : (transport E).Keeping where
  async :=
    { wait := fun s => ((keeps_note s (o := .deferred) trivial).trans (keeps_setWaiting _ true)).trans
        (keeps_arm _ _ _)
      notify := fun s h => ((keeps_note s (o := .notified _) trivial).trans
        (keeps_logRequestId h)).trans
        (.of_same rfl rfl rfl) }
  handshake _ s := .refl s
  read e bytes ops s he := by
    cases e with
    | success => exact absurd rfl he
    | operationAborted => exact .refl s
    | failure => exact keeps_cancelTimer s
  write e s he := by
    cases e with
    | success => exact absurd rfl he
    | operationAborted => exact .refl s
    | failure =>
      change Keeps s (if s.conn.keepAlive then s else s.cancelTimer)
      split
      · exact .refl s
      · exact keeps_cancelTimer s
  wait w e s _ := by
    cases e with
    | success => exact keeps_note s trivial
    | operationAborted => exact .refl s
    | failure => exact .refl s
  asyncReplyDone s h := (keeps_cancelTimer s).trans (keeps_sendReply h)

/-- As long as a read is outstanding nobody has asked for the id of the next request. -/
structure Receiving {E : Externals} (s : Session E.parser.State) : Prop where
  settled : Settled s
  unasked : 0 < s.reads → s.conn.request.Unasked

/-- A successful read starts another one only to receive more of the request. -/
theorem readSucceeded_reads {E : Externals} (bytes : Bytes) (ops : List HandlerOp)
    (s : Session E.parser.State) :
    (s.readSucceeded E (async E) id bytes ops).reads = s.reads ∨
      (s.readSucceeded E (async E) id bytes ops).conn = (s.parse E bytes).conn := by
  have hsend : ∀ u : Session E.parser.State, (u.sendReply E).reads = u.reads :=
    fun u => (sendReply_sending E u).reads
  unfold Session.readSucceeded
  split
  · exact Or.inr rfl
  · dsimp only
    split
    · left
      unfold Session.badRequest Session.andThen
      have htake := ((aside_kept E).takeReply ((s.parse E bytes).note (.parsed bytes.length ‹Nat›))
        ((s.parse E bytes).conn.reply.create .badRequest Reply.textHtml 0)).reads
      split
      · exact htake
      · exact (hsend _).trans htake
    · split
      · left
        unfold Session.dispatch Session.handleRequest Session.andThen
        dsimp only
        have hrun := fun u : Session E.parser.State =>
          (aside_handlerOps (E := E) (asideAsync E) u ops).reads
        split
        · exact hrun _
        · split
          · exact hrun _
          · exact (hsend _).trans (hrun _)
      · exact Or.inr rfl

/-- A written reply is followed by a read only after the request has been cleared. -/
theorem handleWrite_unasked {State : Type} {s : Session State} (e : ErrorCode) (h : s.reads = 0) :
    0 < (handleWrite e s).reads → (handleWrite e s).conn.request.Unasked := by
  unfold handleWrite
  cases e with
  | operationAborted => exact fun hr => absurd h (Nat.pos_iff_ne_zero.mp hr)
  | failure =>
    dsimp only
    split
    · exact fun hr => absurd h (Nat.pos_iff_ne_zero.mp hr)
    · exact fun hr => absurd h (Nat.pos_iff_ne_zero.mp hr)
  | success =>
    dsimp only
    split
    · exact fun _ => s.conn.request.reset_unasked
    · exact fun hr => absurd h (Nat.pos_iff_ne_zero.mp hr)

theorem step_receiving {E : Externals} {s t : Session E.parser.State} {ev : Event}
    (h : Receiving s) (hd : Disciplined s ev) (hs : step E s ev = some t) : Receiving t := by
  refine ⟨step_settled h.settled hd hs, ?_⟩
  have hst := h.settled.staged
  cases (Session.stepped_of_step hs).2 with
  | handshake e hh => exact h.unasked
  | read e bytes ops hr hb =>
    have hone : s.reads - 1 = 0 := by
      have hstage := hst.stage
      rw [hst.idle_of_starts (Nat.pos_iff_ne_zero.mp hr)] at hstage
      have hle := hstage.1
      omega
    cases e with
    | operationAborted => exact fun hr => absurd hone (Nat.pos_iff_ne_zero.mp hr)
    | failure => exact fun hr => absurd hone (Nat.pos_iff_ne_zero.mp hr)
    | success =>
      intro hmore
      rcases readSucceeded_reads (E := E) bytes ops
        ({ s with reads := s.reads - 1 } : Session E.parser.State).cancelTimer with hx | hx
      · exact absurd (hx.trans hone) (Nat.pos_iff_ne_zero.mp hmore)
      · change (Session.readSucceeded E (async E) id bytes ops _).conn.request.Unasked
        rw [hx]
        exact Connection.httpParse_unasked (h.unasked hr) bytes
  | write i e hi =>
    obtain ⟨-, hzero, -⟩ := hst.written hi
    exact handleWrite_unasked e hzero
  | expire hp => exact h.unasked
  | timer i c timer hdeq =>
    change 0 < (handleTimer c.wait c.code { s with timer := timer }).reads → _
    cases hcode : c.code with
    | success => exact h.unasked
    | operationAborted => exact h.unasked
    | failure => exact h.unasked
  | asyncReplyDone hp =>
    intro hr
    have hreads := (sendReply_sending E
      ({ s with posted := s.posted - 1 } : Session E.parser.State).cancelTimer).reads
    have hzero : s.reads ≠ 0 := Nat.pos_iff_ne_zero.mp (Nat.lt_of_lt_of_eq hr hreads)
    have hstage := hst.stage
    rw [hst.idle_of_starts hzero] at hstage
    exact absurd hstage.2.2.1 (Nat.pos_iff_ne_zero.mp hp)
  | handler op hl =>
    intro hr
    have hreads := (aside_handlerOp (E := E) (asideAsync E) s op).reads
    have hx := hst.idle_of_starts (Nat.pos_iff_ne_zero.mp (hreads ▸ hr))
    exact absurd (hx.symm.trans hd.1) Exchange.noConfusion

theorem reads_of_read {E : Externals} {s t : Session E.parser.State} {e : ErrorCode} {bytes : Bytes}
    {ops : List HandlerOp} (hs : step E s (.read e bytes ops) = some t) : 0 < s.reads := by
  cases (Session.stepped_of_step hs).2 with
  | read e bytes ops hr hb => exact hr

theorem start_receiving {E : Externals} (tag : Bytes) (junk : Uninitialised) :
    Receiving (start E tag junk) :=
  ⟨start_settled tag junk, fun _ => Request.reset_unasked _⟩

/-- A completed request, answered by `http_connection`. -/
theorem exchange_iff {E : Externals} (hU : E.uuids.Lawful) (N : Bytes)
    {s t : Session E.parser.State} {bytes : Bytes} {ops : List HandlerOp} {es : List Event}
    (ha : Answers E (step E) s bytes ops t es) (hr : (received E s bytes).Unasked) :
    Throughout (step E) (Identified E.uuids false N s) t es ↔
      DefaultServes E.uuids false N (received E s bytes) := by
  have hnamed : ∀ s : Session E.parser.State, s.conn.request.Unasked →
      Names E.uuids false s ((id s).logRequest E) ∧ ∃ i m,
        ((id s).logRequest E).log = s.log ++ [.requestIdLogged i, .methodLogged m] ∧
        ((id s).logRequest E).conn.request.requestId = i :=
    fun s hu => ⟨names_logRequest hu, _, _, List.append_assoc s.log [_] [_], rfl⟩
  obtain ⟨hid, hiff⟩ := dispatch_identified_iff hU (keeping E).async
    (s := ({ s with reads := s.reads - 1 } : Session E.parser.State).cancelTimer) hnamed N ha.asks
    ha.completes hr
  cases (Session.stepped_of_step ha.read).2 with
  | read e bytes ops hr hb =>
    refine (throughout_identified_iff (keeping E) hid ha.exchange).trans ?_
    refine Iff.trans ⟨?_, ?_⟩ hiff
    · exact fun h => ⟨h.shown, h.given, h.drawn⟩
    · exact fun h => ⟨h.shown, h.given, h.drawn⟩

end HttpConnection

namespace HttpsConnection

theorem keeping (E : Externals) : (transport E).Keeping where
  async :=
    { wait := fun s => ((keeps_note s (o := .deferred) trivial).trans (keeps_setWaiting _ true)).trans
        (keeps_arm _ _ _)
      notify := fun s h => ((keeps_note s (o := .notified _) trivial).trans
        (keeps_logRequestId h)).trans
        (keeps_cancelTimer _) }
  handshake e s := by
    cases e with
    | success => exact ⟨rfl, rfl, [.readStarted], rfl, List.forall_mem_singleton.mpr trivial⟩
    | operationAborted => exact .refl s
    | failure => exact .refl s
  read e bytes ops s he := by
    cases e with
    | success => exact absurd rfl he
    | operationAborted => exact .refl s
    | failure => exact .refl s
  write e s he := by
    cases e with
    | success => exact absurd rfl he
    | operationAborted => exact .refl s
    | failure => exact .refl s
  wait w e s h := by
    obtain ⟨handler, epoch⟩ := w
    cases handler <;> cases e
    · exact keeps_note s trivial
    · exact .refl s
    · exact .refl s
    · exact keeps_note s trivial
    · exact keeps_sendReply h
    · exact .refl s
  asyncReplyDone s _ := .refl s

/-- A completed request, answered by `https_connection`. -/
theorem exchange_iff {E : Externals} (hU : E.uuids.Lawful) (N : Bytes)
    {s t : Session E.parser.State} {bytes : Bytes} {ops : List HandlerOp} {es : List Event}
    (ha : Answers E (step E) s bytes ops t es) (hr : (received E s bytes).Unasked) :
    Throughout (step E) (Identified E.uuids true N s) t es ↔
      DefaultServes E.uuids true N (received E s bytes) := by
  have hnamed : ∀ s : Session E.parser.State, s.conn.request.Unasked →
      Names E.uuids true s ((s.requestUuid E Request.defaultIdHeader).logRequest E) ∧ ∃ id m,
        ((s.requestUuid E Request.defaultIdHeader).logRequest E).log =
          s.log ++ [.requestIdLogged id, .methodLogged m] ∧
        ((s.requestUuid E Request.defaultIdHeader).logRequest E).conn.request.requestId = id :=
    fun s hu => ⟨names_requestUuid hU hu, _, _, List.append_assoc s.log [_] [_], rfl⟩
  obtain ⟨hid, hiff⟩ := dispatch_identified_iff hU (keeping E).async
    (s := { s with reads := s.reads - 1 }) hnamed N ha.asks ha.completes hr
  cases (Session.stepped_of_step ha.read).2 with
  | read e bytes ops hr hb =>
    refine (throughout_identified_iff (keeping E) hid ha.exchange).trans ?_
    refine Iff.trans ⟨?_, ?_⟩ hiff
    · exact fun h => ⟨h.shown, h.given, h.drawn⟩
    · exact fun h => ⟨h.shown, h.given, h.drawn⟩

end HttpsConnection

/-- A request of a connection that a server named `N` has accepted goes under the value of its
header `N`, as the law asks, exactly if the header of the default name serves for it. On
`http_connection` nobody can have asked for the id before the request is complete, when the
handlers are disciplined. -/
theorem request_id_header_iff {E : Externals} (hU : E.uuids.Lawful) (N : Bytes)
    (junk : Uninitialised) (accepts : List (ErrorCode × Uninitialised)) :
    (∀ start ∈ HttpServer.accepted E.parser HttpConnection.started (.new E.parser N junk) accepts,
      ∀ past s bytes ops t es, Along (HttpConnection.step E) Disciplined start past →
        runs (HttpConnection.step E) start past = some s →
        Answers E (HttpConnection.step E) s bytes ops t es →
        (Throughout (HttpConnection.step E) (Identified E.uuids false N s) t es ↔
          DefaultServes E.uuids false N (received E s bytes))) ∧
    (∀ start ∈ HttpServer.accepted E.parser HttpsConnection.started (.new E.parser N junk) accepts,
      ∀ past s bytes ops t es, runs (HttpsConnection.step E) start past = some s →
        Answers E (HttpsConnection.step E) s bytes ops t es → (received E s bytes).Unasked →
        (Throughout (HttpsConnection.step E) (Identified E.uuids true N s) t es ↔
          DefaultServes E.uuids true N (received E s bytes))) := by
  constructor
  · intro start hstart past s bytes ops t es hd hpast ha
    obtain ⟨junk', rfl⟩ := HttpServer.exists_of_mem_accepted hstart
    have hstep : ∀ s ev t, HttpConnection.Receiving s → Disciplined s ev →
        HttpConnection.step E s ev = some t → HttpConnection.Receiving t :=
      fun _ _ _ hs hd ht => HttpConnection.step_receiving hs hd ht
    have hs := invariant hstep (HttpConnection.start_receiving N junk') hd hpast
    refine HttpConnection.exchange_iff hU N ha (Connection.httpParse_unasked (hs.unasked ?_) bytes)
    exact HttpConnection.reads_of_read ha.read
  · intro start _ past s bytes ops t es _ ha hr
    exact HttpsConnection.exchange_iff hU N ha hr

/-! ## Two servers for the same clients -/

def hexDigit (n : Nat) : UInt8 := (if n < 10 then 48 + n else 87 + n).toUInt8

/-- The text of a uuid: its digits in groups of eight, four, four, four and twelve. -/
def uuidText (u : Uuid) : Bytes :=
  (List.range 32).flatMap fun i =>
    (if i = 8 ∨ i = 12 ∨ i = 16 ∨ i = 20 then [45] else []) ++
      [hexDigit (u.toNat / 16 ^ (31 - i) % 16)]

/-- Clients send `GET / HTTP/1.1` with the header `X-Correlation: abc`, which is no uuid. -/
def correlatedBytes : Bytes :=
  ascii "GET / HTTP/1.1" ++ [13, 10] ++ ascii "X-Correlation: abc" ++ [13, 10, 13, 10]

def correlatedServer : Externals :=
  ⟨tableParser [(correlatedBytes, [{ getPieces (ascii "/") with
    headers := [⟨[ascii "X-Correlation"], [ascii "abc"]⟩] }])],
    ⟨fun _ => none, uuidText, fun k => 0x5f0c1a52a9d24c7e8d3b6e4f9a1b2c3d#128 + BitVec.ofNat 128 k⟩⟩

theorem correlatedServer_lawful : correlatedServer.uuids.Lawful where
  empty := rfl
  text u := by
    have hdigit : hexDigit (u.toNat / 16 ^ 31 % 16) ∈ uuidText u :=
      List.mem_flatMap.mpr ⟨0, List.mem_range.mpr (by decide), List.mem_singleton.mpr rfl⟩
    exact List.ne_nil_of_mem hdigit

/-- The server has been told that `X-Correlation` identifies requests. -/
def correlation : Bytes := ascii "X-Correlation"

/-- The first connection it accepts. -/
def correlated : Session correlatedServer.parser.State :=
  HttpConnection.started (.new correlation .zero correlatedServer.parser.init)

/-- The handler defers its reply and asks for the id before it notifies. -/
def correlatedLater : List Event :=
  [.handler (.create .ok Reply.textHtml 0), .handler (.requestId Request.defaultIdHeader),
    .handler .notifyAsyncReplyDone, .asyncReplyDone]

theorem request_id_header_iff_correlated :
    ∃ t, HttpConnection.step correlatedServer correlated
        (.read .success correlatedBytes [.waitForAsyncReply]) = some t ∧
      (Throughout (HttpConnection.step correlatedServer)
          (Identified correlatedServer.uuids false correlation correlated) t correlatedLater ↔
        DefaultServes correlatedServer.uuids false correlation
          (received correlatedServer correlated correlatedBytes)) := by
  have hstep : ∃ t, HttpConnection.step correlatedServer correlated
      (.read .success correlatedBytes [.waitForAsyncReply]) = some t := ⟨_, rfl⟩
  obtain ⟨t, ht⟩ := hstep
  have hasks : ∀ ev ∈ correlatedLater, InExchange ev := by
    simp [correlatedLater, InExchange, AsksForId]
  refine ⟨t, ht, ?_⟩
  exact (request_id_header_iff correlatedServer_lawful correlation .zero [(.success, .zero)]).1
    correlated (List.mem_singleton.mpr rfl) [] correlated correlatedBytes [.waitForAsyncReply] t
    correlatedLater trivial rfl
    ⟨⟨rfl, rfl⟩, List.forall_mem_singleton.mpr (fun _ => HandlerOp.noConfusion), ht, hasks⟩

/-- The request has the configured header with the value `abc`, and goes under a new uuid. -/
theorem correlated_not_used :
    ∃ t, HttpConnection.step correlatedServer correlated
        (.read .success correlatedBytes [.create .ok Reply.textHtml 0]) = some t ∧
      Answers correlatedServer (HttpConnection.step correlatedServer) correlated correlatedBytes
        [.create .ok Reply.textHtml 0] t [] ∧
      t.conn.request.Carries correlation (ascii "abc") ∧
      t.conn.request.requestId = ascii "5f0c1a52-a9d2-4c7e-8d3b-6e4f9a1b2c3d" ∧
      ¬ Identified correlatedServer.uuids false correlation correlated t := by
  obtain ⟨t, ht, hheaders, hid⟩ : ∃ t, HttpConnection.step correlatedServer correlated
      (.read .success correlatedBytes [.create .ok Reply.textHtml 0]) = some t ∧
      t.conn.request.headers = [⟨ascii "x-correlation", ascii "abc"⟩] ∧
      t.conn.request.requestId = ascii "5f0c1a52-a9d2-4c7e-8d3b-6e4f9a1b2c3d" :=
    ⟨_, rfl, by decide +kernel, by decide +kernel⟩
  have hcarries : t.conn.request.Carries correlation (ascii "abc") := by
    refine ⟨by decide, ?_⟩
    rw [hheaders]
    exact ⟨_, List.mem_singleton.mpr rfl, by decide, rfl⟩
  refine ⟨t, ht, ⟨⟨rfl, rfl⟩, ?_, ht, List.forall_mem_nil _⟩, hcarries, hid, fun h => ?_⟩
  · exact List.forall_mem_singleton.mpr (fun _ => HandlerOp.noConfusion)
  · rcases h.given _ hcarries with he | ⟨hs, -⟩
    · rw [hid] at he
      revert he
      decide
    · cases hs

end CsiHttp.Server
