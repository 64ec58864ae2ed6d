import CsiHttp.Lib.CharArray
import CsiHttp.Server.Parser
import CsiHttp.Server.Request
import CsiHttp.Server.Reply

/-!
# `connection`: the parser callbacks

The base class of both transports. Each callback is a function from the connection to
the connection and the value it returns to the parser; a write outside one of the two
header arrays is a fault.
-/
namespace CsiHttp.Server

open Lib Lib.Text

/-- `MAX_HEADER_SIZE`. -/
def maxHeaderSize : Nat := 4096

/-- The members that no constructor sets hold whatever the memory held. -/
structure Uninitialised where
  status : StatusType
  lastHeaderWasValue : Bool
  currentHeaderKey : CharArray maxHeaderSize
  currentHeaderVal : CharArray maxHeaderSize
  currentHeaderKeyLen : Nat
  currentHeaderValLen : Nat

/-- Memory that happens to be zero. -/
def Uninitialised.zero : Uninitialised :=
  ⟨.undefined, false, ⟨List.replicate _ 0, List.length_replicate⟩,
    ⟨List.replicate _ 0, List.length_replicate⟩, 0, 0⟩

/-- `connection`; `parser` is `none` once the parser has failed. -/
structure Connection (State : Type) where
  requestIdHeaderTag : Bytes
  parser : Option State
  request : Request
  reply : Reply
  lastHeaderWasValue : Bool
  currentHeaderKey : CharArray maxHeaderSize
  currentHeaderVal : CharArray maxHeaderSize
  currentHeaderKeyLen : Nat
  currentHeaderValLen : Nat
  requestComplete : Bool
  keepAlive : Bool
  waitingForAsyncReply : Bool

namespace Connection

variable {State : Type}

/-- `connection::connection`. -/
def new (tag : Bytes) (junk : Uninitialised) (parser : State) : Connection State where
  requestIdHeaderTag := tag
  parser := some parser
  request := Request.new
  reply := Reply.new junk.status
  lastHeaderWasValue := junk.lastHeaderWasValue
  currentHeaderKey := junk.currentHeaderKey
  currentHeaderVal := junk.currentHeaderVal
  currentHeaderKeyLen := junk.currentHeaderKeyLen
  currentHeaderValLen := junk.currentHeaderValLen
  requestComplete := false
  keepAlive := false
  waitingForAsyncReply := false

/-- `connection::on_message_begin`. -/
def onMessageBegin (c : Connection State) : Connection State :=
  { c with
    request := c.request.reset
    reply := c.reply.reset
    requestComplete := false
    lastHeaderWasValue := false
    currentHeaderKeyLen := 0
    currentHeaderValLen := 0
    currentHeaderKey := c.currentHeaderKey.clear
    currentHeaderVal := c.currentHeaderVal.clear }

/-- `connection::on_url`. -/
def onUrl (parseUrl : Bytes → Option UrlFields) (c : Connection State) (piece : Bytes) :
    Connection State × Int :=
  match parseUrl piece with
  | some f =>
    ({ c with
        request := { c.request with
          url := c.request.url ++ f.path.getD []
          query := c.request.query ++ f.query.getD [] } }, 0)
  | none => (c, 1)

/-- The block that adds the current key and value to the headers of the request; it
stands in `on_header_field` and in `on_headers_complete`. -/
def commitHeader (c : Connection State) : Connection State :=
  let key := c.currentHeaderKey.toLower
  let val := c.currentHeaderVal.toLower
  { c with
    request := { c.request with headers := c.request.headers ++ [⟨key.cstr, val.cstr⟩] }
    currentHeaderKey := key.clear
    currentHeaderVal := val.clear
    currentHeaderKeyLen := 0
    currentHeaderValLen := 0 }

def commitPending (c : Connection State) : Connection State :=
  if c.lastHeaderWasValue then c.commitHeader else c

/-- `connection::on_header_field`. -/
def onHeaderField (c : Connection State) (piece : Bytes) : Except Fault (Connection State) :=
  let c := c.commitPending
  match c.currentHeaderKey.append c.currentHeaderKeyLen piece with
  | some key =>
    .ok { c with
      currentHeaderKey := key
      currentHeaderKeyLen := c.currentHeaderKeyLen + piece.length
      lastHeaderWasValue := false }
  | none => .error .headerOverflow

/-- `connection::on_header_value`. -/
def onHeaderValue (c : Connection State) (piece : Bytes) : Except Fault (Connection State) :=
  match c.currentHeaderVal.append c.currentHeaderValLen piece with
  | some val =>
    .ok { c with
      currentHeaderVal := val
      currentHeaderValLen := c.currentHeaderValLen + piece.length
      lastHeaderWasValue := true }
  | none => .error .headerOverflow

/-- `connection::on_headers_complete`; the flag `lastHeaderWasValue` stays as it is. -/
def onHeadersComplete (c : Connection State) (method contentLength : Nat) : Connection State :=
  let c := c.commitPending
  { c with request := { c.request with contentLength := contentLength, method := some method } }

/-- `connection::on_body`. -/
def onBody (c : Connection State) (piece : Bytes) : Connection State :=
  { c with request := { c.request with rxBuffer := c.request.rxBuffer ++ piece } }

/-- `connection::on_message_complete`. -/
def onMessageComplete (c : Connection State) (shouldKeepAlive : Bool) : Connection State :=
  { c with keepAlive := shouldKeepAlive, requestComplete := true }

/-- One callback and the value it returns. -/
def callback (parseUrl : Bytes → Option UrlFields) (c : Connection State) :
    Callback → Except Fault (Connection State × Int)
  | .messageBegin => .ok (c.onMessageBegin, 0)
  | .url piece => .ok (c.onUrl parseUrl piece)
  | .headerField piece => (c.onHeaderField piece).map (fun c => (c, 0))
  | .headerValue piece => (c.onHeaderValue piece).map (fun c => (c, 0))
  | .headersComplete method contentLength => .ok (c.onHeadersComplete method contentLength, 0)
  | .body piece => .ok (c.onBody piece, 0)
  | .messageComplete keepAlive => .ok (c.onMessageComplete keepAlive, 0)

/-- Why a sequence of callbacks ended. -/
inductive Stop where
  | finished
  | refused
  | fault (f : Fault)
  deriving DecidableEq, Repr

/-- The callbacks that returned, and the connection after them. -/
structure Delivery (State : Type) where
  conn : Connection State
  made : List Callback
  stop : Stop

/-- Make the callbacks in order until one returns non-zero or faults. -/
def deliver (parseUrl : Bytes → Option UrlFields) (c : Connection State) :
    List Callback → Delivery State
  | [] => ⟨c, [], .finished⟩
  | cb :: cbs =>
    match c.callback parseUrl cb with
    | .error f => ⟨c, [], .fault f⟩
    | .ok (c', r) =>
      if r = 0 then
        let d := deliver parseUrl c' cbs
        { d with made := cb :: d.made }
      else ⟨c', [cb], .refused⟩

/-- Every callback of the list returns 0 and leads from `c` to `c'`. -/
def Delivers (parseUrl : Bytes → Option UrlFields) (c : Connection State) (cbs : List Callback)
    (c' : Connection State) : Prop :=
  c.deliver parseUrl cbs = ⟨c', cbs, .finished⟩

section Deliver

variable {parseUrl : Bytes → Option UrlFields} {c c' c'' : Connection State}
variable {cb : Callback} {cbs cbs' : List Callback}

theorem deliver_cons_ok (h : c.callback parseUrl cb = .ok (c', 0)) :
    c.deliver parseUrl (cb :: cbs) =
      { c'.deliver parseUrl cbs with made := cb :: (c'.deliver parseUrl cbs).made } := by
  simp [deliver, h]

theorem deliver_cons_error {f : Fault} (h : c.callback parseUrl cb = .error f) :
    c.deliver parseUrl (cb :: cbs) = ⟨c, [], .fault f⟩ := by
  simp [deliver, h]

theorem deliver_cons_refused {r : Int} (h : c.callback parseUrl cb = .ok (c', r)) (hr : r ≠ 0) :
    c.deliver parseUrl (cb :: cbs) = ⟨c', [cb], .refused⟩ := by
  simp [deliver, h, hr]

theorem Delivers.refl : Delivers parseUrl c [] c := rfl

theorem Delivers.cons (h : c.callback parseUrl cb = .ok (c', 0))
    (ht : Delivers parseUrl c' cbs c'') : Delivers parseUrl c (cb :: cbs) c'' := by
  unfold Delivers at ht ⊢
  rw [deliver_cons_ok h, ht]

theorem Delivers.single (h : c.callback parseUrl cb = .ok (c', 0)) :
    Delivers parseUrl c [cb] c' :=
  .cons h .refl

/-- The first of several callbacks that all return 0. -/
theorem Delivers.uncons (h : Delivers parseUrl c (cb :: cbs) c'') :
    ∃ c', c.callback parseUrl cb = .ok (c', 0) ∧ Delivers parseUrl c' cbs c'' := by
  unfold Delivers at h
  cases hcb : c.callback parseUrl cb with
  | error f =>
    rw [deliver_cons_error hcb] at h
    cases congrArg Delivery.stop h
  | ok p =>
    obtain ⟨d, r⟩ := p
    by_cases hr : r = 0
    · subst hr
      refine ⟨d, rfl, ?_⟩
      rw [deliver_cons_ok hcb] at h
      obtain ⟨h1, h2, h3⟩ := Delivery.mk.inj h
      unfold Delivers
      cases hdel : d.deliver parseUrl cbs with
      | mk conn made stop =>
        rw [hdel] at h1 h2 h3
        exact congr (congr (congrArg Delivery.mk h1) (List.cons.inj h2).2) h3
    · rw [deliver_cons_refused hcb hr] at h
      cases congrArg Delivery.stop h

/-- Callbacks that all return 0 may be split off in front. -/
theorem Delivers.deliver_append (h : Delivers parseUrl c cbs c') :
    c.deliver parseUrl (cbs ++ cbs') =
      { c'.deliver parseUrl cbs' with made := cbs ++ (c'.deliver parseUrl cbs').made } := by
  induction cbs generalizing c with
  | nil =>
    have he : c = c' := congrArg Delivery.conn h
    subst he
    rfl
  | cons cb cbs ih =>
    obtain ⟨d, hcb, hd⟩ := h.uncons
    rw [List.cons_append, deliver_cons_ok hcb, ih hd]
    rfl

theorem Delivers.append (h : Delivers parseUrl c cbs c') (h' : Delivers parseUrl c' cbs' c'') :
    Delivers parseUrl c (cbs ++ cbs') c'' := by
  unfold Delivers at h' ⊢
  rw [h.deliver_append, h']

/-- A sequence that stops early stops there whatever was to follow. -/
theorem deliver_append_of_stop (h : (c.deliver parseUrl cbs).stop ≠ .finished) :
    c.deliver parseUrl (cbs ++ cbs') = c.deliver parseUrl cbs := by
  induction cbs generalizing c with
  | nil => exact absurd rfl h
  | cons cb cbs ih =>
    rw [List.cons_append]
    cases hcb : c.callback parseUrl cb with
    | error f => rw [deliver_cons_error hcb, deliver_cons_error hcb]
    | ok p =>
      obtain ⟨d, r⟩ := p
      by_cases hr : r = 0
      · subst hr
        rw [deliver_cons_ok hcb] at h ⊢
        rw [deliver_cons_ok hcb, ih h]
      · rw [deliver_cons_refused hcb hr, deliver_cons_refused hcb hr]

theorem stop_append_of_fault {f : Fault} (h : (c.deliver parseUrl cbs).stop = .fault f) :
    (c.deliver parseUrl (cbs ++ cbs')).stop = .fault f := by
  rw [deliver_append_of_stop (by rw [h]; exact Stop.noConfusion), h]

/-- A finished sequence made every callback. -/
theorem delivers_of_finished (h : (c.deliver parseUrl cbs).stop = .finished) :
    Delivers parseUrl c cbs (c.deliver parseUrl cbs).conn := by
  induction cbs generalizing c with
  | nil => rfl
  | cons cb cbs ih =>
    cases hcb : c.callback parseUrl cb with
    | error f =>
      rw [deliver_cons_error hcb] at h
      cases h
    | ok p =>
      obtain ⟨d, r⟩ := p
      by_cases hr : r = 0
      · subst hr
        rw [deliver_cons_ok hcb] at h ⊢
        exact .cons hcb (ih h)
      · rw [deliver_cons_refused hcb hr] at h
        cases h

end Deliver

/-- A `connection::http_parse` call: the callbacks made, and either the fault that ended
the program or the number of bytes reported as parsed. -/
structure Parsed (State : Type) where
  conn : Connection State
  made : List Callback
  result : Except Fault Nat

/-- `connection::http_parse`. A parser that has failed returns 0 at once. -/
def httpParse (P : HttpParser) (c : Connection P.State) (buf : Bytes) : Parsed P.State :=
  match c.parser with
  | none => ⟨c, [], .ok 0⟩
  | some st =>
    let x := P.execute st buf
    let d := c.deliver P.parseUrl x.calls
    match d.stop with
    | .fault f => ⟨d.conn, d.made, .error f⟩
    | .refused => ⟨{ d.conn with parser := none }, d.made, .ok (x.onRefusal (d.made.length - 1))⟩
    | .finished => ⟨{ d.conn with parser := x.after }, d.made, .ok x.nparsed⟩

end Connection

end CsiHttp.Server
