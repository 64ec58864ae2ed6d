import CsiHttp.Service.Route

/-!
# `json_spirit_http_server_sample`

A service that is called with a `POST` of a JSON object. Every call is answered by a timer, and a
body that is no such object is answered with a 400 instead of an exception.
-/
namespace CsiHttp.Samples.JsonSpiritHttpServer

open Lib Lib.Text Lib.Runs Lib.Framing Server Service

/-- What the sample uses of the library json_spirit. `none` stands for an exception. -/
structure JsonSpirit where
  /-- `json_spirit::Value`. -/
  Value : Type
  /-- The value after `read`, which is null before. -/
  read : Bytes → Option Value
  /-- `get_obj`: the pairs of an object in their order. -/
  getObj : Value → Option (List (Bytes × Value))
  getStr : Value → Option Bytes
  getUint64 : Value → Option UInt64

variable (J : JsonSpirit)

/-! ## `json_decode` -/

structure SampleDataReq1 where
  email : Bytes
  phone : Bytes
  delay : UInt64
  deriving DecidableEq

def emailTag : Bytes := ascii "email"

def phoneTag : Bytes := ascii "phone"

def delayTag : Bytes := ascii "delay"

namespace SampleDataReq1

def new : SampleDataReq1 := ⟨[], [], 0⟩

/-- The body of the loop, for one pair. -/
def take (sd : SampleDataReq1) (item : Bytes × J.Value) : Option SampleDataReq1 :=
  if item.1 = emailTag then (J.getStr item.2).map (fun s => { sd with email := s })
  else if item.1 = phoneTag then (J.getStr item.2).map (fun s => { sd with phone := s })
  else if item.1 = delayTag then (J.getUint64 item.2).map (fun n => { sd with delay := n })
  else some sd

/-- The loop; what has been decoded before an exception stays. -/
def takeAll (sd : SampleDataReq1) : List (Bytes × J.Value) → Bool × SampleDataReq1
  | [] => (true, sd)
  | item :: obj =>
    match sd.take J item with
    | some sd' => sd'.takeAll obj
    | none => (false, sd)

end SampleDataReq1

/-- `json_decode` of an object. -/
def jsonDecode (obj : List (Bytes × J.Value)) : Bool × SampleDataReq1 :=
  SampleDataReq1.new.takeAll J obj

/-- A pair whose name is known has a value of the right type. -/
def Typed (item : Bytes × J.Value) : Prop :=
  (item.1 = emailTag ∨ item.1 = phoneTag → (J.getStr item.2).isSome) ∧
    (item.1 = delayTag → (J.getUint64 item.2).isSome)

instance (item : Bytes × J.Value) : Decidable (Typed J item) := by
  unfold Typed
  infer_instance

/-- The values of the pairs with a name, in their order. -/
def valuesOf {V α : Type} (get : V → Option α) (tag : Bytes) (obj : List (Bytes × V)) : List α :=
  obj.filterMap (fun item => if item.1 = tag then get item.2 else none)

/-- The last pair of each name counts. -/
def SampleDataReq1.overlay (sd : SampleDataReq1) (obj : List (Bytes × J.Value)) : SampleDataReq1 where
  email := (valuesOf J.getStr emailTag obj).getLastD sd.email
  phone := (valuesOf J.getStr phoneTag obj).getLastD sd.phone
  delay := (valuesOf J.getUint64 delayTag obj).getLastD sd.delay

theorem valuesOf_cons {V α : Type} (get : V → Option α) (tag : Bytes) (item : Bytes × V)
    (obj : List (Bytes × V)) : valuesOf get tag (item :: obj) =
      (if item.1 = tag then get item.2 else none).toList ++ valuesOf get tag obj := by
  unfold valuesOf
  rw [List.filterMap_cons]
  cases h : (if item.1 = tag then get item.2 else none) with
  | none => rfl
  | some a => rfl

theorem getLastD_append {α : Type} (xs ys : List α) (d : α) :
    (xs ++ ys).getLastD d = ys.getLastD (xs.getLastD d) := by
  induction xs generalizing d with
  | nil => rfl
  | cons x xs ih => rw [List.cons_append, List.getLastD_cons, List.getLastD_cons, ih]

namespace SampleDataReq1

variable {J} {sd sd' : SampleDataReq1} {item : Bytes × J.Value} {obj : List (Bytes × J.Value)}

theorem overlay_cons (sd : SampleDataReq1) (item : Bytes × J.Value) (obj : List (Bytes × J.Value)) :
    sd.overlay J (item :: obj) = (sd.overlay J [item]).overlay J obj := by
  unfold overlay
  simp only [valuesOf_cons, getLastD_append]
  rfl

theorem overlay_singleton (sd : SampleDataReq1) (item : Bytes × J.Value) : sd.overlay J [item] =
    ⟨(if item.1 = emailTag then J.getStr item.2 else none).getD sd.email,
      (if item.1 = phoneTag then J.getStr item.2 else none).getD sd.phone,
      (if item.1 = delayTag then J.getUint64 item.2 else none).getD sd.delay⟩ := by
  have hlast : ∀ {α : Type} (get : J.Value → Option α) (tag : Bytes) (d : α),
      (valuesOf get tag [item]).getLastD d = (if item.1 = tag then get item.2 else none).getD d := by
    intro α get tag d
    rw [valuesOf_cons]
    cases h : (if item.1 = tag then get item.2 else none) with
    | none => rfl
    | some a => rfl
  unfold overlay
  rw [hlast, hlast, hlast]

theorem map_eq_some_getD {α β : Type} {o : Option α} {f : α → β} {b : β} (d : α) :
    o.map f = some b ↔ o.isSome ∧ b = f (o.getD d) := by
  cases o with
  | none => exact iff_of_false (fun h => by cases h) fun h => Bool.false_ne_true h.1
  | some a => exact ⟨fun h => ⟨rfl, (Option.some.inj h).symm⟩, fun h => congrArg some h.2.symm⟩

/-- One pass of the loop. The three names are different. -/
theorem take_eq_some : sd.take J item = some sd' ↔ Typed J item ∧ sd' = sd.overlay J [item] := by
  rw [overlay_singleton]
  unfold take
  by_cases he : item.1 = emailTag
  · have hp : item.1 ≠ phoneTag := by rw [he]; decide
    have hd : item.1 ≠ delayTag := by rw [he]; decide
    have htyped : Typed J item ↔ (J.getStr item.2).isSome :=
      ⟨fun h => h.1 (Or.inl he), fun h => ⟨fun _ => h, fun hdelay => absurd hdelay hd⟩⟩
    rw [if_pos he, if_pos he, if_neg hp, if_neg hd, htyped]
    exact map_eq_some_getD sd.email
  · rw [if_neg he, if_neg he]
    by_cases hp : item.1 = phoneTag
    · have hd : item.1 ≠ delayTag := by rw [hp]; decide
      have htyped : Typed J item ↔ (J.getStr item.2).isSome :=
        ⟨fun h => h.1 (Or.inr hp), fun h => ⟨fun _ => h, fun hdelay => absurd hdelay hd⟩⟩
      rw [if_pos hp, if_pos hp, if_neg hd, htyped]
      exact map_eq_some_getD sd.phone
    · rw [if_neg hp, if_neg hp]
      have hstr : ¬ (item.1 = emailTag ∨ item.1 = phoneTag) := not_or.mpr ⟨he, hp⟩
      by_cases hd : item.1 = delayTag
      · have htyped : Typed J item ↔ (J.getUint64 item.2).isSome :=
          ⟨fun h => h.2 hd, fun h => ⟨fun hor => absurd hor hstr, fun _ => h⟩⟩
        rw [if_pos hd, if_pos hd, htyped]
        exact map_eq_some_getD sd.delay
      · have htyped : Typed J item := ⟨fun hor => absurd hor hstr, fun hdelay => absurd hdelay hd⟩
        rw [if_neg hd, if_neg hd, and_iff_right htyped]
        exact ⟨fun h => (Option.some.inj h).symm, fun h => congrArg some h.symm⟩

theorem takeAll_eq_true_iff : sd.takeAll J obj = (true, sd') ↔
    (∀ item ∈ obj, Typed J item) ∧ sd' = sd.overlay J obj := by
  induction obj generalizing sd with
  | nil =>
    rw [takeAll, Prod.mk.injEq]
    exact ⟨fun h => ⟨List.forall_mem_nil _, h.2.symm⟩, fun h => ⟨rfl, h.2.symm⟩⟩
  | cons item obj ih =>
    rw [takeAll, List.forall_mem_cons, overlay_cons]
    cases h : sd.take J item with
    | none =>
      refine iff_of_false (fun hfalse => Bool.false_ne_true (Prod.mk.inj hfalse).1) fun hall => ?_
      have hsome : sd.take J item = some (sd.overlay J [item]) := take_eq_some.mpr ⟨hall.1.1, rfl⟩
      rw [h] at hsome
      cases hsome
    | some sd₁ =>
      obtain ⟨htyped, rfl⟩ := take_eq_some.mp h
      dsimp only
      rw [ih]
      exact and_congr_left fun _ => (and_iff_right htyped).symm

end SampleDataReq1

/-- An object is decoded if every pair with a known name has a value of the right type, and then
each member is given by the last pair with its name. -/
theorem jsonDecode_eq_true_iff (J : JsonSpirit) (obj : List (Bytes × J.Value)) (sd : SampleDataReq1) :
    jsonDecode J obj = (true, sd) ↔
      (∀ item ∈ obj, Typed J item) ∧ sd = SampleDataReq1.new.overlay J obj :=
  SampleDataReq1.takeAll_eq_true_iff

/-! ## The service -/

def route : Bytes := ascii "/rest/sample"

theorem route_plain : UriPattern.Plain route := by decide

theorem route_ne_nil : route ≠ [] := by decide

/-- `csi::json_spirit_decode`. -/
def jsonSpiritDecode (src : Bytes) : Bool × SampleDataReq1 :=
  match (J.read src).bind J.getObj with
  | some root => jsonDecode J root
  | none => (false, .new)

namespace SampleService

/-- `sample_service::_handle_post`. -/
def handlePost : Answer := ⟨.ok, []⟩

/-- `sample_service::post`: the timer is started with `_handle_post`. -/
def post : Plan := .later handlePost

end SampleService

/-- `sample_request_handler::handle_request`. -/
def handleRequest (r : Request.View) : Plan :=
  if r.method = some post then
    if (jsonSpiritDecode J r.body).1 then SampleService.post else .now ⟨.badRequest, []⟩
  else .now ⟨.badRequest, []⟩

/-- The server of `main`; the counter of its handler starts with `memory`. -/
def start (E : Externals) (tag : Bytes) (junk : Uninitialised) (memory : UInt64) :
    Desk E.parser.State :=
  Desk.start (http E) tag junk [(route, memory)]

def step (E : Externals) (d : Desk E.parser.State) (ev : Desk.Event) : Option (Desk E.parser.State) :=
  Desk.step (http E) [route] (fun r => handleRequest J r.view) d ev

/-- The text of an object all of whose known members have the right types. -/
def Acceptable (src : Bytes) : Prop := ∃ root ∈ (J.read src).bind J.getObj, ∀ item ∈ root, Typed J item

instance (src : Bytes) : Decidable (Acceptable J src) := by
  unfold Acceptable
  infer_instance

/-- What the service is for: the status that a request is answered with. -/
def statusOf (v : Request.View) : StatusType :=
  if v.url = route then
    if v.method = some post ∧ Acceptable J v.body then .ok else .badRequest
  else .notFound

variable {J}

theorem jsonSpiritDecode_iff (src : Bytes) :
    (jsonSpiritDecode J src).1 = true ↔ Acceptable J src := by
  unfold jsonSpiritDecode Acceptable
  cases (J.read src).bind J.getObj with
  | none => exact iff_of_false Bool.false_ne_true (fun h => nomatch h)
  | some root =>
    have hdecoded : (jsonDecode J root).1 = true ↔ ∀ item ∈ root, Typed J item := by
      constructor
      · intro h
        exact (SampleDataReq1.takeAll_eq_true_iff.mp (Prod.ext h rfl)).1
      · intro h
        exact congrArg Prod.fst (SampleDataReq1.takeAll_eq_true_iff.mpr ⟨h, rfl⟩)
    exact hdecoded.trans ⟨fun h => ⟨root, rfl, h⟩, fun ⟨_, hr, h⟩ => Option.some.inj hr ▸ h⟩

/-- No request makes the handler throw. -/
theorem answer_eq (v : Request.View) : (handleRequest J v).answer =
    some ⟨if v.method = some post ∧ Acceptable J v.body then .ok else .badRequest, []⟩ := by
  unfold handleRequest
  by_cases hm : v.method = some post
  · rw [if_pos hm]
    by_cases hj : Acceptable J v.body
    · rw [if_pos ((jsonSpiritDecode_iff v.body).mpr hj), if_pos ⟨hm, hj⟩]
      rfl
    · rw [if_neg fun h => hj ((jsonSpiritDecode_iff v.body).mp h), if_neg fun h => hj h.2]
      rfl
  · rw [if_neg hm, if_neg fun h => hm h.1]
    rfl

theorem expectedView_eq (v : Request.View) :
    expectedView [route] (handleRequest J) v = some ⟨statusOf J v, []⟩ := by
  rw [expectedView_route route_plain, answer_eq]
  unfold statusOf
  by_cases hu : v.url = route
  · rw [if_pos hu, if_pos hu]
  · rw [if_neg hu, if_neg hu]
    rfl

theorem statuses_read {sts : List StatusType} {ms : List Wire.Message}
    (h : List.Forall₂ Answer.ReadAs (sts.map (fun st => ⟨st, []⟩)) ms) :
    ms.map (fun m => (m.status, m.body)) = sts.map (fun st => (st.code, [])) := by
  induction sts generalizing ms with
  | nil =>
    cases h
    rfl
  | cons st sts ih =>
    cases h with
    | cons hread h =>
      obtain ⟨hstatus, hbody⟩ := hread
      rw [List.map_cons, List.map_cons, hstatus, hbody, ih h]
      rfl

/-! ## Runs -/

section Runs

variable {E : Externals} {tag : Bytes} {junk : Uninitialised} {memory : UInt64}
variable {es : List Desk.Event} {u : Desk E.parser.State}

/-- No handler ends the program with an exception. As long as it runs, each client whose messages
are clean and end with a read gets back one empty response for each of them, in their order: 200
for a `POST` of an acceptable object to the route, 400 for anything else that is sent there, and
404. The last one may still be due. -/
theorem posts_answered (hurl : ReadsTargets E.parser.parseUrl)
    (h : runs (step J E) (start E tag junk memory) es = some u) :
    u.system.stopped ≠ some .exception ∧
    (u.system.stopped = none → ∀ (i : Nat) x, u.system.connections[i]? = some x →
      ∀ sent : List Sent, (∀ m ∈ sent, m.Clean E.parser.parseUrl) →
      Carries E.parser sent (Desk.portions i es) →
      Aligned Sent.size sent ((Desk.portions i es).map List.length) →
      ∃ (given : List StatusType) (owed : Option StatusType) (ms : List Wire.Message),
        (whole Sent.size sent (Desk.portions i es).flatten.length).map
            (fun m => statusOf J (m.own E.parser.parseUrl)) = given ++ owed.toList ∧
        Wire.readMessages (wire x.session.log) = some ms ∧
        ms.map (fun m => (m.status, m.body)) = given.map (fun st => (st.code, [])) ∧
        u.Due i x.session (owed.map (fun st => ⟨st, []⟩))) := by
  have hserving : Serving tag [route] (fun r => handleRequest J r.view) u :=
    serving_runs E tag junk [(route, memory)] (fun r => handleRequest J r.view) h
  refine ⟨fun hstop => ?_, fun hrun i x hx sent hclean hcarries haligned => ?_⟩
  · obtain ⟨x, -, r, -, hnone⟩ := hserving.thrown.mp hstop
    rw [expected_route route_plain, answer_eq] at hnone
    by_cases hu : r.url = route
    · rw [if_pos hu] at hnone
      cases hnone
    · rw [if_neg hu] at hnone
      cases hnone
  · have hsendable : ∀ m ∈ sent, ∀ a, (handleRequest J (m.own E.parser.parseUrl)).answer =
        some a → a.Sendable := by
      intro m _ a ha
      rw [answer_eq] at ha
      obtain rfl := Option.some.inj ha
      split
      · exact ⟨by decide, by decide, by decide⟩
      · exact Answer.sendable_badRequest
    have hattended :=
      attended_runs E tag junk [(route, memory)] (fun r => handleRequest J r.view) h
    obtain ⟨as, ms, due, hms, hreads, hanswers, hdue⟩ :=
      hattended.answers hurl hserving hrun hx hclean hcarries haligned hsendable
    simp only [expectedView_eq] at hanswers
    have hmap : ((whole Sent.size sent (Desk.portions i es).flatten.length).map
        (fun m => statusOf J (m.own E.parser.parseUrl))).map (fun st => (⟨st, []⟩ : Answer)) =
          as ++ due.toList := by
      refine List.map_injective_iff.mpr (Option.some_injective _) ?_
      rw [List.map_map, List.map_map]
      exact hanswers
    obtain ⟨given, owed, hsplit, rfl, rfl⟩ := split_of_map hmap
    exact ⟨given, owed, ms, hsplit, hms, statuses_read hreads, hdue⟩

end Runs

/-- The values of the text of an object. -/
inductive SampleValue where
  | obj (pairs : List (Bytes × SampleValue))
  | str (s : Bytes)
  | uint (n : UInt64)
  | null

def sampleText : Bytes := ascii "\x7b\"delay\":10,\"email\":\"a@b\"\x7d"

def sampleSpirit : JsonSpirit where
  Value := SampleValue
  read src :=
    if src = sampleText then some (.obj [(delayTag, .uint 10), (emailTag, .str (ascii "a@b"))])
    else some .null
  getObj
    | .obj pairs => some pairs
    | .str _ | .uint _ | .null => none
  getStr
    | .str s => some s
    | .obj _ | .uint _ | .null => none
  getUint64
    | .uint n => some n
    | .obj _ | .str _ | .null => none

def postServer : Externals :=
  ⟨tableParser [(postBytes route sampleText, [postPieces route sampleText])], plainUuids⟩

def onePost : List Desk.Event :=
  [.accept 0 .success .zero, .read 0 .success (postBytes route sampleText), .job 0,
    .complete 0 .asyncReplyDone]

/-- The message that carries the text. -/
def samplePost : Sent := postSent route_ne_nil sampleText

theorem posts_answered_onePost : ∃ u x,
    runs (step sampleSpirit postServer) (start postServer [] .zero 0) onePost = some u ∧
    u.system.stopped ≠ some .exception ∧ u.system.connections[0]? = some x ∧
      ∃ (given : List StatusType) (owed : Option StatusType) (ms : List Wire.Message),
        (whole Sent.size [samplePost] (Desk.portions 0 onePost).flatten.length).map
            (fun m => statusOf sampleSpirit (m.own readRooted)) = given ++ owed.toList ∧
        Wire.readMessages (wire x.session.log) = some ms ∧
        ms.map (fun m => (m.status, m.body)) = given.map (fun st => (st.code, [])) ∧
        u.Due 0 x.session (owed.map (fun st => ⟨st, []⟩)) := by
  have hrun : ∃ u x, runs (step sampleSpirit postServer) (start postServer [] .zero 0) onePost =
      some u ∧ u.system.stopped = none ∧ u.system.connections[0]? = some x := ⟨_, _, rfl, rfl, rfl⟩
  obtain ⟨u, x, hu, hrunning, hx⟩ := hrun
  have hclean : ∀ m ∈ [samplePost], m.Clean readRooted :=
    List.forall_mem_singleton.mpr (postSent_clean route_ne_nil (by decide) rfl sampleText)
  have hcarries : Carries postServer.parser [samplePost] (Desk.portions 0 onePost) :=
    HttpConnection.tableParser_carries (List.cons_ne_nil _ _) (by decide +kernel) (by decide +kernel)
  obtain ⟨hstop, hanswered⟩ := posts_answered readRooted_readsTargets hu
  exact ⟨u, x, hu, hstop, hx, hanswered hrunning 0 x hx [samplePost] hclean hcarries
    (aligned_map Sent.size [samplePost])⟩

end CsiHttp.Samples.JsonSpiritHttpServer
