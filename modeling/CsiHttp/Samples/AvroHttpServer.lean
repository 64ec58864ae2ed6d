import CsiHttp.Service.Route

/-!
# `avro_http_server_sample`

A service that is called with a `POST` of an encoded `HelloWorldRequest`. A call without delay is
answered at once, any other by a timer. A body that cannot be decoded is an exception that no one
catches before `main`.
-/
namespace CsiHttp.Samples.AvroHttpServer

open Lib Lib.Text Lib.Runs Lib.Framing Server Service

/-! ## The service -/

structure HelloWorldRequest where
  message : Bytes
  delay : Int64
  deriving DecidableEq

structure HelloWorldResponse where
  message : Bytes
  deriving DecidableEq

/-- `avro_json_encode` and `avro_json_decode` for a type; an exception gives `none`. -/
structure Codec (α : Type) where
  encode : α → Bytes
  decode : Bytes → Option α

/-- The value is decoded from its own encoding. -/
def Codec.Keeps {α : Type} (c : Codec α) (a : α) : Prop := c.decode (c.encode a) = some a

structure Codecs where
  request : Codec HelloWorldRequest
  response : Codec HelloWorldResponse

def route : Bytes := ascii "/rest/avro_sample"

theorem route_plain : UriPattern.Plain route := by decide

theorem route_ne_nil : route ≠ [] := by decide

variable (C : Codecs)

namespace SampleService

/-- `sample_service::_handle_post`. -/
def handlePost : Answer := ⟨.ok, [C.response.encode ⟨ascii "hello to you!"⟩]⟩

/-- `sample_service::post`: the timer is started with `_handle_post`. -/
def post : Plan := .later (handlePost C)

end SampleService

/-- `sample_request_handler::handle_request`. -/
def handleRequest (r : Request.View) : Plan :=
  if r.method = some post then
    match C.request.decode r.body with
    | none => .throws
    | some request =>
      if request.delay = 0 then .now ⟨.ok, [C.response.encode ⟨request.message⟩]⟩
      else SampleService.post C
  else .now ⟨.badRequest, []⟩

/-- The server of `main`; the counter of its handler starts with `memory`. -/
def start (E : Externals) (tag : Bytes) (junk : Uninitialised) (memory : UInt64) :
    Desk E.parser.State :=
  Desk.start (http E) tag junk [(route, memory)]

def step (E : Externals) (d : Desk E.parser.State) (ev : Desk.Event) : Option (Desk E.parser.State) :=
  Desk.step (http E) [route] (fun r => handleRequest C r.view) d ev

/-! ## Calls -/

/-- What the service is for: the response to a request. -/
def respond (q : HelloWorldRequest) : HelloWorldResponse :=
  if q.delay = 0 then ⟨q.message⟩ else ⟨ascii "hello to you!"⟩

/-- The answer that carries it. -/
def reply (q : HelloWorldRequest) : Answer := ⟨.ok, [C.response.encode (respond q)]⟩

variable {C}

theorem answer_eq_none {r : Request.View} :
    (handleRequest C r).answer = none ↔ r.method = some post ∧ C.request.decode r.body = none := by
  unfold handleRequest
  by_cases hm : r.method = some post
  · rw [if_pos hm]
    cases hq : C.request.decode r.body with
    | none => exact iff_of_true rfl ⟨hm, rfl⟩
    | some q =>
      refine iff_of_false ?_ fun h => Option.some_ne_none q h.2
      dsimp only
      by_cases hd : q.delay = 0
      · rw [if_pos hd]
        exact Option.some_ne_none _
      · rw [if_neg hd]
        exact Option.some_ne_none _
  · rw [if_neg hm]
    exact iff_of_false (Option.some_ne_none _) fun h => hm h.1

theorem answer_call {r : Request.View} {q : HelloWorldRequest} (hm : r.method = some post)
    (hq : C.request.decode r.body = some q) : (handleRequest C r).answer = some (reply C q) := by
  unfold handleRequest reply respond
  rw [if_pos hm, hq]
  dsimp only
  by_cases hd : q.delay = 0
  · rw [if_pos hd, if_pos hd]
    rfl
  · rw [if_neg hd, if_neg hd]
    rfl

/-- The message is a call with `q`, as `create_avro_json_rest` makes one. -/
structure Call (C : Codecs) (parseUrl : Bytes → Option UrlFields) (m : Sent)
    (q : HelloWorldRequest) : Prop where
  clean : m.Clean parseUrl
  method : m.pieces.method = post
  url : pathOf parseUrl m.target = route
  body : m.pieces.body.flatten = C.request.encode q

/-- The codecs can do the call. -/
structure Callable (C : Codecs) (q : HelloWorldRequest) : Prop where
  request : C.request.Keeps q
  response : C.response.Keeps (respond q)
  response_lt : (C.response.encode (respond q)).length < 2147483648

section Calls

variable {parseUrl : Bytes → Option UrlFields} {m : Sent} {q : HelloWorldRequest}

theorem content_reply (C : Codecs) (q : HelloWorldRequest) :
    (reply C q).content = C.response.encode (respond q) := List.flatten_singleton

theorem Callable.sendable (h : Callable C q) : (reply C q).Sendable := by
  have hmem : StatusType.ok ∈ statusTable := by decide
  have hbody : StatusType.ok ≠ .noContent ∧ StatusType.ok ≠ .notModified := by decide
  refine ⟨hmem, hbody, ?_⟩
  rw [content_reply]
  exact h.response_lt

theorem Call.answer (h : Call C parseUrl m q) (hq : Callable C q) :
    (handleRequest C (m.own parseUrl)).answer = some (reply C q) := by
  refine answer_call (congrArg some h.method) ?_
  change C.request.decode m.pieces.body.flatten = some q
  rw [h.body]
  exact hq.request

theorem Call.expected (h : Call C parseUrl m q) (hq : Callable C q) :
    expectedView [route] (handleRequest C) (m.own parseUrl) = some (reply C q) := by
  rw [expectedView_route route_plain]
  exact (if_pos h.url).trans (h.answer hq)

/-- What a client reads in a response. -/
def read (C : Codecs) (m : Wire.Message) : Nat × Option HelloWorldResponse :=
  (m.status, C.response.decode m.body)

theorem Callable.read {msg : Wire.Message} (h : Callable C q) (hm : (reply C q).ReadAs msg) :
    read C msg = (200, some (respond q)) := by
  obtain ⟨hstatus, hbody⟩ := hm
  unfold AvroHttpServer.read
  rw [hstatus, hbody, content_reply, h.response]
  rfl

theorem call_of_mem {sent : List Sent} {qs : List HelloWorldRequest}
    (hcalls : List.Forall₂ (Call C parseUrl) sent qs) :
    ∀ m ∈ sent, ∃ q ∈ qs, Call C parseUrl m q := by
  induction hcalls with
  | nil => exact List.forall_mem_nil _
  | @cons m q sent qs hcall hcalls ih =>
    rw [List.forall_mem_cons]
    refine ⟨⟨q, List.mem_cons_self, hcall⟩, fun m hm => ?_⟩
    obtain ⟨q', hmem, hcall'⟩ := ih m hm
    exact ⟨q', List.mem_cons_of_mem q hmem, hcall'⟩

theorem calls_expected {sent : List Sent} {qs : List HelloWorldRequest}
    (hcalls : List.Forall₂ (Call C parseUrl) sent qs) (hq : ∀ q ∈ qs, Callable C q) :
    sent.map (fun m => expectedView [route] (handleRequest C) (m.own parseUrl)) =
      qs.map (fun q => some (reply C q)) := by
  induction hcalls with
  | nil => rfl
  | cons hcall hcalls ih =>
    obtain ⟨hcallable, hq⟩ := List.forall_mem_cons.mp hq
    rw [List.map_cons, List.map_cons, hcall.expected hcallable, ih hq]

theorem calls_read {qs : List HelloWorldRequest} {ms : List Wire.Message}
    (hq : ∀ q ∈ qs, Callable C q) (h : List.Forall₂ Answer.ReadAs (qs.map (reply C)) ms) :
    ms.map (AvroHttpServer.read C) = qs.map (fun q => (200, some (respond q))) := by
  induction qs generalizing ms with
  | nil =>
    cases h
    rfl
  | cons q qs ih =>
    obtain ⟨hcallable, hq⟩ := List.forall_mem_cons.mp hq
    cases h with
    | cons hread h => rw [List.map_cons, List.map_cons, hcallable.read hread, ih hq h]

end Calls

/-! ## Two clients of the server -/

/-- The encodings of records with a message that needs no escapes. -/
def plainCodecs : Codecs where
  request :=
    { encode := fun q => ascii "\x7b\"message\":\"" ++ q.message ++ ascii "\",\"delay\":" ++
        decimal q.delay.toInt ++ ascii "\x7d"
      decode := fun bytes =>
        [(ascii "\x7b\"message\":\"hi\",\"delay\":0\x7d", ⟨ascii "hi", 0⟩),
          (ascii "\x7b\"message\":\"hi\",\"delay\":9\x7d", ⟨ascii "hi", 9⟩)].lookup bytes }
  response :=
    { encode := fun r => ascii "\x7b\"message\":\"" ++ r.message ++ ascii "\"\x7d"
      decode := fun bytes => some ⟨(bytes.drop 12).dropLast.dropLast⟩ }

/-- A message is sent back at once, -/
def sayHi : HelloWorldRequest := ⟨ascii "hi", 0⟩

/-- or it is answered after some milliseconds. -/
def sayLater : HelloWorldRequest := ⟨ascii "hi", 9⟩

/-- As long as an encoded request, but there is a letter missing. -/
def garbled : Bytes := ascii "\x7b\"message\":\"hi\",\"dela\":99\x7d"

def postServer : Externals :=
  ⟨tableParser ([plainCodecs.request.encode sayHi, plainCodecs.request.encode sayLater, garbled].map
    (fun body => (postBytes route body, [postPieces route body]))), plainUuids⟩

/-- The second client is answered while the timer for the first one is running. -/
def twoCalls : List Desk.Event :=
  [.accept 0 .success .zero, .read 0 .success (postBytes route (plainCodecs.request.encode sayLater)),
    .accept 1 .success .zero, .read 1 .success (postBytes route (plainCodecs.request.encode sayHi)),
    .complete 1 (.write 0 .success), .job 0, .complete 0 .asyncReplyDone,
    .complete 0 (.write 0 .success)]

/-! ## Runs -/

section Runs

variable {E : Externals} {tag : Bytes} {junk : Uninitialised} {memory : UInt64}
variable {es : List Desk.Event} {u : Desk E.parser.State}

theorem serving (h : runs (step C E) (start E tag junk memory) es = some u) :
    Serving tag [route] (fun r => handleRequest C r.view) u :=
  serving_runs E tag junk [(route, memory)] (fun r => handleRequest C r.view) h

/-- One client can end the program for all others: `io_service::run` ends with an exception exactly
when a client has posted a body that cannot be decoded. -/
theorem stopped_iff (h : runs (step C E) (start E tag junk memory) es = some u) :
    u.system.stopped = some .exception ↔ ∃ x ∈ u.system.connections,
      ∃ r ∈ requests x.session.log, r.url = route ∧ r.method = some post ∧
        C.request.decode r.rxBuffer = none := by
  refine (serving h).thrown.trans ?_
  refine exists_congr fun x => and_congr_right fun _ => exists_congr fun r => and_congr_right fun _ => ?_
  rw [expected_route route_plain]
  by_cases hu : r.url = route
  · rw [if_pos hu]
    exact answer_eq_none.trans ⟨fun hr => ⟨hu, hr⟩, fun hr => hr.2⟩
  · rw [if_neg hu]
    exact iff_of_false (Option.some_ne_none _) fun hr => hu hr.1

/-- The second client posts a body that is no request. -/
def garbledCall : List Desk.Event :=
  [.accept 0 .success .zero, .read 0 .success (postBytes route (plainCodecs.request.encode sayLater)),
    .accept 1 .success .zero, .read 1 .success (postBytes route garbled)]

theorem stopped_iff_garbledCall : ∃ u,
    runs (step plainCodecs postServer) (start postServer [] .zero 0) garbledCall = some u ∧
    (u.system.stopped = some .exception ↔ ∃ x ∈ u.system.connections,
      ∃ r ∈ requests x.session.log, r.url = route ∧ r.method = some post ∧
        plainCodecs.request.decode r.rxBuffer = none) := by
  obtain ⟨u, hu⟩ : ∃ u, runs (step plainCodecs postServer) (start postServer [] .zero 0)
      garbledCall = some u := ⟨_, rfl⟩
  exact ⟨u, hu, stopped_iff hu⟩

/-- As long as the program runs, a client that makes calls of which the codecs are capable gets its
responses back from the bytes on its connection, in the order of its calls, whatever the other
clients send and however its calls are cut behind their targets. The response to the last call that
has arrived may still be due. -/
theorem calls_answered (hurl : ReadsTargets E.parser.parseUrl)
    (h : runs (step C E) (start E tag junk memory) es = some u) (hrun : u.system.stopped = none)
    {i : Nat} {x : Slot E.parser.State} (hx : u.system.connections[i]? = some x)
    {sent : List Sent} {qs : List HelloWorldRequest}
    (hcalls : List.Forall₂ (Call C E.parser.parseUrl) sent qs) (hq : ∀ q ∈ qs, Callable C q)
    (hcarries : Carries E.parser sent (Desk.portions i es))
    (haligned : Aligned Sent.size sent ((Desk.portions i es).map List.length)) :
    ∃ (answered : List HelloWorldRequest) (owed : Option HelloWorldRequest) (ms : List Wire.Message),
      qs.take (whole Sent.size sent (Desk.portions i es).flatten.length).length =
        answered ++ owed.toList ∧
      Wire.readMessages (wire x.session.log) = some ms ∧
      ms.map (AvroHttpServer.read C) = answered.map (fun q => (200, some (respond q))) ∧
      u.Due i x.session (owed.map (reply C)) := by
  have hone := call_of_mem hcalls
  have hclean : ∀ m ∈ sent, m.Clean E.parser.parseUrl := by
    intro m hm
    obtain ⟨q, -, hcall⟩ := hone m hm
    exact hcall.clean
  have hrule : ∀ m ∈ sent, ∀ a, (handleRequest C (m.own E.parser.parseUrl)).answer = some a →
      a.Sendable := by
    intro m hm a ha
    obtain ⟨q, hmem, hcall⟩ := hone m hm
    obtain rfl := Option.some.inj ((hcall.answer (hq q hmem)).symm.trans ha)
    exact (hq q hmem).sendable
  have hattended := attended_runs E tag junk [(route, memory)] (fun r => handleRequest C r.view) h
  obtain ⟨as, ms, due, hms, hreads, hanswers, hdue⟩ :=
    hattended.answers hurl (serving h) hrun hx hclean hcarries haligned hrule
  obtain ⟨n, hn⟩ : ∃ n, (whole Sent.size sent (Desk.portions i es).flatten.length).length = n :=
    ⟨_, rfl⟩
  have hwhole : whole Sent.size sent (Desk.portions i es).flatten.length = sent.take n := by
    have hprefix : whole Sent.size sent (Desk.portions i es).flatten.length <+: sent :=
      ⟨_, whole_append_rest Sent.size sent (Desk.portions i es).flatten.length⟩
    rw [← hn]
    exact List.prefix_iff_eq_take.mp hprefix
  have hq' : ∀ q ∈ qs.take n, Callable C q := fun q hmem => hq q (List.mem_of_mem_take hmem)
  rw [hwhole, calls_expected (List.forall₂_take n hcalls) hq'] at hanswers
  have hmap : (qs.take n).map (reply C) = as ++ due.toList := by
    refine List.map_injective_iff.mpr (Option.some_injective _) ?_
    rw [List.map_map]
    exact hanswers
  obtain ⟨answered, owed, hsplit, rfl, rfl⟩ := split_of_map hmap
  refine ⟨answered, owed, ms, by rw [hn, hsplit], hms, calls_read (fun q hmem => ?_) hreads, hdue⟩
  exact hq' q (by rw [hsplit]; exact List.mem_append_left _ hmem)

/-- A call whose encoding has 26 bytes. -/
def callOf (q : HelloWorldRequest) : Sent := postSent route_ne_nil (plainCodecs.request.encode q)

theorem callOf_call (q : HelloWorldRequest) : Call plainCodecs readRooted (callOf q) q where
  clean := postSent_clean route_ne_nil (by decide) rfl _
  method := rfl
  url := by
    change pathOf readRooted route = route
    decide +kernel
  body := List.flatten_singleton

theorem sayLater_callable : Callable plainCodecs sayLater where
  request := by
    unfold Codec.Keeps
    decide +kernel
  response := by
    unfold Codec.Keeps
    decide +kernel
  response_lt := by decide +kernel

theorem calls_answered_twoCalls : ∃ u x,
    runs (step plainCodecs postServer) (start postServer [] .zero 0) twoCalls = some u ∧
    u.system.connections[0]? = some x ∧
    ∃ (answered : List HelloWorldRequest) (owed : Option HelloWorldRequest) (ms : List Wire.Message),
      [sayLater].take (whole Sent.size [callOf sayLater]
        (Desk.portions 0 twoCalls).flatten.length).length = answered ++ owed.toList ∧
      Wire.readMessages (wire x.session.log) = some ms ∧
      ms.map (AvroHttpServer.read plainCodecs) = answered.map (fun q => (200, some (respond q))) ∧
      u.Due 0 x.session (owed.map (reply plainCodecs)) := by
  have hrun : ∃ u x, runs (step plainCodecs postServer) (start postServer [] .zero 0) twoCalls =
      some u ∧ u.system.stopped = none ∧ u.system.connections[0]? = some x := ⟨_, _, rfl, rfl, rfl⟩
  obtain ⟨u, x, hu, hrunning, hx⟩ := hrun
  have hcarries : Carries postServer.parser [callOf sayLater] (Desk.portions 0 twoCalls) :=
    HttpConnection.tableParser_carries (List.cons_ne_nil _ _) (by decide +kernel) (by decide +kernel)
  have haligned : Aligned Sent.size [callOf sayLater]
      ((Desk.portions 0 twoCalls).map List.length) :=
    aligned_map Sent.size [callOf sayLater]
  exact ⟨u, x, hu, hx, calls_answered readRooted_readsTargets hu hrunning hx
    (.cons (callOf_call sayLater) .nil) (List.forall_mem_singleton.mpr sayLater_callable) hcarries
    haligned⟩

end Runs

end CsiHttp.Samples.AvroHttpServer
