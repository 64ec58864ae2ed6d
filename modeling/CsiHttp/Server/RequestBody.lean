import CsiHttp.Server.MessageAssembly
import CsiHttp.Server.TableParser

/-!
# The body of a request

Two places know how long a body is: the field `_content_length`, which holds what the parser
says at the end of the headers, and the stream into which `on_body` writes the pieces.
-/
namespace CsiHttp.Server

open Lib Lib.Text

/-- `request_t::content_length`; `none` when its assertion fails. -/
def Request.checkedContentLength (r : Request) : Option Nat :=
  if r.contentLength > 0 then
    if r.rxBuffer.length = r.contentLength then some r.rxBuffer.length else none
  else some r.rxBuffer.length

/-- What a callback does to the body and to the length that was announced for it. -/
def Callback.feed (b : Bytes × Nat) : Callback → Bytes × Nat
  | .messageBegin => ([], 0)
  | .headersComplete _ contentLength => (b.1, contentLength)
  | .body piece => (b.1 ++ piece, b.2)
  | .url _ | .headerField _ | .headerValue _ | .messageComplete _ => b

theorem Callback.foldl_feed_body (pieces : List Bytes) (b : Bytes × Nat) :
    (pieces.map Callback.body).foldl Callback.feed b = (b.1 ++ pieces.flatten, b.2) := by
  induction pieces generalizing b with
  | nil => exact Prod.ext (List.append_nil _).symm rfl
  | cons p ps ih =>
    rw [List.map_cons, List.foldl_cons, ih, List.flatten_cons, ← List.append_assoc]
    rfl

theorem Callback.foldl_feed_still {cbs : List Callback} (h : ∀ cb ∈ cbs, ∀ b, Callback.feed b cb = b)
    (b : Bytes × Nat) : cbs.foldl Callback.feed b = b := by
  induction cbs with
  | nil => rfl
  | cons cb cbs ih =>
    obtain ⟨hcb, hcbs⟩ := List.forall_mem_cons.mp h
    rw [List.foldl_cons, hcb, ih hcbs]

theorem HeaderPieces.feed_calls (hs : List HeaderPieces) (b : Bytes × Nat) :
    (hs.flatMap HeaderPieces.calls).foldl Callback.feed b = b := by
  apply Callback.foldl_feed_still
  intro cb hcb b'
  obtain ⟨p, -, hp⟩ := List.mem_flatMap.mp hcb
  cases List.mem_append.mp hp with
  | inl hname =>
    obtain ⟨piece, -, rfl⟩ := List.mem_map.mp hname
    rfl
  | inr hvalue =>
    obtain ⟨piece, -, rfl⟩ := List.mem_map.mp hvalue
    rfl

/-- The callbacks of a whole message leave its body and its length, whatever was there. -/
theorem MessagePieces.feed_calls (m : MessagePieces) (b : Bytes × Nat) :
    m.calls.foldl Callback.feed b = (m.body.flatten, m.contentLength) := by
  have hurls : ∀ b', (m.urls.map Callback.url).foldl Callback.feed b' = b' := by
    intro b'
    apply Callback.foldl_feed_still
    intro cb hcb b''
    obtain ⟨piece, -, rfl⟩ := List.mem_map.mp hcb
    rfl
  simp only [calls, headCalls, List.foldl_append, List.foldl_cons, List.foldl_nil, hurls,
    HeaderPieces.feed_calls, Callback.foldl_feed_body, Callback.feed, List.nil_append]

namespace Connection

variable {State : Type} {parseUrl : Bytes → Option UrlFields} {c c' : Connection State}

/-- The body so far and the announced length. -/
def content (c : Connection State) : Bytes × Nat := (c.request.rxBuffer, c.request.contentLength)

theorem callback_content {cb : Callback} {r : Int} (h : c.callback parseUrl cb = .ok (c', r)) :
    c'.content = Callback.feed c.content cb := by
  have hcommit : c.commitPending.content = c.content := by
    unfold commitPending
    split <;> rfl
  cases cb with
  | messageBegin | body piece | messageComplete k =>
    cases h
    rfl
  | url piece =>
    simp only [callback, onUrl] at h
    split at h <;> cases h <;> rfl
  | headerField piece =>
    simp only [callback, onHeaderField] at h
    split at h <;> cases h
    exact hcommit
  | headerValue piece =>
    simp only [callback, onHeaderValue] at h
    split at h <;> cases h
    rfl
  | headersComplete method contentLength =>
    cases h
    exact congrArg (fun b => (b.1, contentLength)) hcommit

/-- The run of the step lemma. -/
theorem Delivers.content {cbs : List Callback} (h : Delivers parseUrl c cbs c') :
    c'.content = cbs.foldl Callback.feed c.content := by
  induction cbs generalizing c with
  | nil =>
    have he : c = c' := congrArg Delivery.conn h
    rw [he]
    rfl
  | cons cb cbs ih =>
    obtain ⟨d, hcb, hd⟩ := h.uncons
    rw [List.foldl_cons, ih hd, callback_content hcb]

/-- However a message is cut into callbacks, its body arrives as the pieces of it joined. -/
theorem Delivers.rxBuffer {m : MessagePieces} (h : Delivers parseUrl c m.calls c') :
    c'.request.rxBuffer = m.body.flatten ∧ c'.request.contentLength = m.contentLength :=
  Prod.mk.inj (h.content.trans (m.feed_calls _))

end Connection

/-! ## The assertion -/

/-- What `http_parser` promises about the length of a message: it announces the value of the
header `Content-Length`, which is then the size of the body, or its sentinel. -/
structure MessagePieces.Framed (m : MessagePieces) (declared : Option Nat) : Prop where
  announced : m.contentLength = declared.getD noContentLength
  complete : ∀ n, declared = some n → (m.body.map List.length).sum = n

section Assertion

variable {State : Type} {parseUrl : Bytes → Option UrlFields} {c c' : Connection State}

theorem checkedContentLength_eq {m : MessagePieces}
    (h : Connection.Delivers parseUrl c m.calls c') :
    c'.request.checkedContentLength =
      if m.contentLength > 0 then
        if (m.body.map List.length).sum = m.contentLength then some (m.body.map List.length).sum
        else none
      else some (m.body.map List.length).sum := by
  obtain ⟨hbody, hlength⟩ := h.rxBuffer
  rw [Request.checkedContentLength, hbody, hlength, List.length_flatten]

/-- The assertion of `content_length()` holds, and the call returns the size of the body, exactly
if the message has a `Content-Length` or its body is as long as the sentinel. -/
theorem contentLength_asserted_iff {m : MessagePieces} {declared : Option Nat}
    (h : Connection.Delivers parseUrl c m.calls c') (hf : m.Framed declared) :
    c'.request.checkedContentLength = some (m.body.map List.length).sum ↔
      declared.isSome ∨ (m.body.map List.length).sum = noContentLength := by
  rw [checkedContentLength_eq h, hf.announced]
  cases declared with
  | some n =>
    have hsum := hf.complete n rfl
    rw [Option.getD_some, hsum, if_pos rfl, ite_self]
    exact iff_of_true rfl (Or.inl rfl)
  | none =>
    have hpos : noContentLength > 0 := by decide
    rw [Option.getD_none, if_pos hpos]
    by_cases hsum : (m.body.map List.length).sum = noContentLength
    · rw [if_pos hsum]
      exact iff_of_true rfl (Or.inr hsum)
    · rw [if_neg hsum]
      refine iff_of_false (fun he => by cases he) ?_
      intro hor
      cases hor with
      | inl hsome => cases hsome
      | inr heq => exact hsum heq

end Assertion

/-- A `POST` of five bytes, the body in two pieces. -/
def postPieces : MessagePieces :=
  ⟨[ascii "/rest/avro_sample"], [⟨[ascii "Content-Length"], [ascii "5"]⟩], 3, 5,
    [ascii "he", ascii "llo"], [], true⟩

theorem contentLength_asserted_iff_post :
    ∃ c', Connection.Delivers readRooted (.new [] .zero ()) postPieces.calls c' ∧
      (c'.request.checkedContentLength = some 5 ↔
        (some 5).isSome ∨ (postPieces.body.map List.length).sum = noContentLength) := by
  have hurls : Accepted readRooted postPieces.urls := by decide
  obtain ⟨c', h, -⟩ :=
    Connection.message_delivers (Connection.new [] .zero ()) hurls (by decide) (by decide)
  have hframed : postPieces.Framed (some 5) := ⟨rfl, fun n hn => by cases hn; decide⟩
  exact ⟨c', h, contentLength_asserted_iff h hframed⟩

/-- A `GET` without a body fails the assertion. -/
theorem contentLength_of_get :
    ¬ ∀ (m : MessagePieces) (declared : Option Nat) (c c' : Connection Unit),
      Connection.Delivers readRooted c m.calls c' → m.Framed declared →
      c'.request.checkedContentLength = some (m.body.map List.length).sum := by
  intro hall
  have hurls : Accepted readRooted (getPieces (ascii "/")).urls := by decide
  obtain ⟨c', h, -⟩ :=
    Connection.message_delivers (Connection.new [] .zero ()) hurls (by decide) (by decide)
  have hframed : (getPieces (ascii "/")).Framed none := ⟨rfl, fun n hn => by cases hn⟩
  have hchecked := hall _ none _ c' h hframed
  rw [checkedContentLength_eq h] at hchecked
  revert hchecked
  decide

end CsiHttp.Server
