import CsiHttp.Http

/-!
# `http_parser`, seen from its callbacks

The parser is not part of the repository. It is a parameter: for each buffer it says
which callbacks it makes, in which order, and how many bytes it reports as parsed. A
callback that returns non-zero stops it, and a parser that has failed parses nothing
any more. What its documentation promises beyond that is the structure `Documented`.
-/
namespace CsiHttp.Server

open Lib.Text

/-- The callbacks of `http_parser_settings`, with the parser fields each of them reads. -/
inductive Callback where
  | messageBegin
  | url (piece : Bytes)
  | headerField (piece : Bytes)
  | headerValue (piece : Bytes)
  | headersComplete (method contentLength : Nat)
  | body (piece : Bytes)
  | messageComplete (shouldKeepAlive : Bool)
  deriving DecidableEq, Repr

/-- The fields of `http_parser_url` that are used: a field not in `field_set` is `none`. -/
structure UrlFields where
  path : Option Bytes
  query : Option Bytes
  deriving DecidableEq, Repr

/-- One call of `http_parser_execute`. `after` is `none` when the parser fails, and
`onRefusal i` is what it returns should the callback at index `i` return non-zero. -/
structure Execution (State : Type) where
  calls : List Callback
  onRefusal : Nat → Nat
  after : Option State
  nparsed : Nat

structure HttpParser where
  State : Type
  init : State
  execute : State → Bytes → Execution State
  /-- `http_parser_parse_url` with `is_connect = 0`; `none` when it returns non-zero. -/
  parseUrl : Bytes → Option UrlFields

/-- Where a parser stands in the message it reads. -/
inductive Phase where
  | idle
  | head
  | content
  deriving DecidableEq, Repr

/-- The order of the callbacks of one message. Trailer fields follow the body. -/
def Phase.next : Phase → Callback → Option Phase
  | .idle, .messageBegin => some .head
  | .head, .url _ => some .head
  | .head, .headerField _ => some .head
  | .head, .headerValue _ => some .head
  | .head, .headersComplete _ _ => some .content
  | .content, .body _ => some .content
  | .content, .headerField _ => some .content
  | .content, .headerValue _ => some .content
  | .content, .messageComplete _ => some .idle
  | _, _ => none

def Phase.follow : Phase → List Callback → Option Phase
  | ph, [] => some ph
  | ph, cb :: cbs => (ph.next cb).bind (fun ph' => ph'.follow cbs)

/-- Carriage returns and line feeds, which may precede a request line. -/
def blank (b : UInt8) : Bool := b == 13 || b == 10

/-- What the documentation of `http_parser` promises. The callbacks of a message come
in order; a failure is reported by a short count; blank bytes between two messages are
parsed without a callback, and any other byte there starts a message or fails. -/
structure HttpParser.Documented (P : HttpParser) (phase : P.State → Phase) : Prop where
  init_idle : phase P.init = .idle
  ordered : ∀ st buf, ∃ ph, (phase st).follow (P.execute st buf).calls = some ph ∧
    ∀ st', (P.execute st buf).after = some st' → phase st' = ph
  short : ∀ st buf, (P.execute st buf).after = none → (P.execute st buf).nparsed ≠ buf.length
  skips : ∀ st buf, phase st = .idle → (∀ b ∈ buf, blank b = true) →
    (P.execute st buf).calls = [] ∧ (P.execute st buf).after.isSome ∧
      (P.execute st buf).nparsed = buf.length
  starts : ∀ st buf, phase st = .idle → (∃ b ∈ buf, blank b = false) →
    (P.execute st buf).calls ≠ [] ∨ (P.execute st buf).after = none

@[simp] theorem Phase.follow_nil (ph : Phase) : ph.follow [] = some ph := rfl

theorem Phase.follow_cons_iff {ph ph' : Phase} {cb : Callback} {cbs : List Callback} :
    ph.follow (cb :: cbs) = some ph' ↔ ∃ q, ph.next cb = some q ∧ q.follow cbs = some ph' :=
  Option.bind_eq_some_iff

theorem Phase.follow_append_iff {ph ph' : Phase} {cbs cbs' : List Callback} :
    ph.follow (cbs ++ cbs') = some ph' ↔
      ∃ q, ph.follow cbs = some q ∧ q.follow cbs' = some ph' := by
  induction cbs generalizing ph with
  | nil => simp
  | cons cb cbs ih =>
    rw [List.cons_append, follow_cons_iff]
    constructor
    · rintro ⟨q, hq, h⟩
      obtain ⟨r, hr, h⟩ := ih.mp h
      exact ⟨r, follow_cons_iff.mpr ⟨q, hq, hr⟩, h⟩
    · rintro ⟨r, hr, h⟩
      obtain ⟨q, hq, hr⟩ := follow_cons_iff.mp hr
      exact ⟨q, hq, ih.mpr ⟨r, hr, h⟩⟩

/-- A message in the pieces in which the parser delivers it. -/
structure HeaderPieces where
  name : List Bytes
  value : List Bytes
  deriving DecidableEq, Repr

namespace HeaderPieces

def calls (h : HeaderPieces) : List Callback :=
  h.name.map .headerField ++ h.value.map .headerValue

/-- The header the pieces belong to. -/
def header (h : HeaderPieces) : Header := ⟨h.name.flatten, h.value.flatten⟩

/-- A name and a value arrive in at least one piece each, pieces possibly empty. -/
def Delivered (h : HeaderPieces) : Prop := h.name ≠ [] ∧ h.value ≠ []

instance (h : HeaderPieces) : Decidable h.Delivered := inferInstanceAs (Decidable (_ ∧ _))

end HeaderPieces

structure MessagePieces where
  urls : List Bytes
  headers : List HeaderPieces
  method : Nat
  contentLength : Nat
  body : List Bytes
  trailers : List HeaderPieces
  keepAlive : Bool
  deriving DecidableEq, Repr

namespace MessagePieces

/-- The callbacks up to the end of the header section. -/
def headCalls (m : MessagePieces) : List Callback :=
  [.messageBegin] ++ m.urls.map .url ++ m.headers.flatMap HeaderPieces.calls ++
    [.headersComplete m.method m.contentLength]

def calls (m : MessagePieces) : List Callback :=
  m.headCalls ++ m.body.map .body ++ m.trailers.flatMap HeaderPieces.calls ++
    [.messageComplete m.keepAlive]

theorem calls_ne_nil (m : MessagePieces) : m.calls ≠ [] := by simp [calls]

end MessagePieces

theorem Phase.follow_of_stay {ph : Phase} {cbs : List Callback}
    (h : ∀ cb ∈ cbs, ph.next cb = some ph) : ph.follow cbs = some ph := by
  induction cbs with
  | nil => rfl
  | cons cb cbs ih =>
    obtain ⟨hcb, hcbs⟩ := List.forall_mem_cons.mp h
    exact follow_cons_iff.mpr ⟨ph, hcb, ih hcbs⟩

/-- Field callbacks may come in the head of a message and after its body. -/
theorem Phase.follow_fields {ph : Phase} (h : ph ≠ .idle) (hs : List HeaderPieces) :
    ph.follow (hs.flatMap HeaderPieces.calls) = some ph := by
  refine follow_of_stay fun cb hcb => ?_
  obtain ⟨p, -, hcb⟩ := List.mem_flatMap.mp hcb
  rcases List.mem_append.mp hcb with hcb | hcb
  · obtain ⟨piece, -, rfl⟩ := List.mem_map.mp hcb
    cases ph
    · exact absurd rfl h
    · rfl
    · rfl
  · obtain ⟨piece, -, rfl⟩ := List.mem_map.mp hcb
    cases ph
    · exact absurd rfl h
    · rfl
    · rfl

/-- The callbacks of a message lead from between two messages to between two messages. -/
theorem MessagePieces.follow_calls (m : MessagePieces) : Phase.idle.follow m.calls = some .idle := by
  have hurls : Phase.head.follow (m.urls.map .url) = some .head := by
    refine Phase.follow_of_stay fun cb hcb => ?_
    obtain ⟨piece, -, rfl⟩ := List.mem_map.mp hcb
    rfl
  have hbody : Phase.content.follow (m.body.map .body) = some .content := by
    refine Phase.follow_of_stay fun cb hcb => ?_
    obtain ⟨piece, -, rfl⟩ := List.mem_map.mp hcb
    rfl
  have hhead : Phase.idle.follow m.headCalls = some .content :=
    Phase.follow_append_iff.mpr ⟨.head, Phase.follow_append_iff.mpr
      ⟨.head, Phase.follow_append_iff.mpr ⟨.head, rfl, hurls⟩,
        Phase.follow_fields Phase.noConfusion m.headers⟩, rfl⟩
  exact Phase.follow_append_iff.mpr ⟨.content, Phase.follow_append_iff.mpr
    ⟨.content, Phase.follow_append_iff.mpr ⟨.content, hhead, hbody⟩,
      Phase.follow_fields Phase.noConfusion m.trailers⟩, rfl⟩

theorem follow_messages (ms : List MessagePieces) :
    Phase.idle.follow (ms.flatMap MessagePieces.calls) = some .idle := by
  induction ms with
  | nil => rfl
  | cons m ms ih => exact Phase.follow_append_iff.mpr ⟨.idle, m.follow_calls, ih⟩

/-- Inside a message the parser does not stand between two messages. -/
theorem MessagePieces.follow_begun {m : MessagePieces} {part more : List Callback}
    (h : m.calls = part ++ more) (hp : part ≠ []) (hm : more ≠ []) :
    ∃ ph, Phase.idle.follow part = some ph ∧ ph ≠ .idle := by
  have hall := m.follow_calls
  rw [h] at hall
  obtain ⟨ph, hpart, hmore⟩ := Phase.follow_append_iff.mp hall
  refine ⟨ph, hpart, ?_⟩
  rintro rfl
  -- a second beginning, but a message begins only once
  cases part with
  | nil => exact hp rfl
  | cons cb part =>
    cases more with
    | nil => exact hm rfl
    | cons cb' more =>
      obtain ⟨q, hq, -⟩ := Phase.follow_cons_iff.mp hmore
      have hbegin : cb' = .messageBegin := by
        cases cb' with
        | messageBegin => rfl
        | url _ | headerField _ | headerValue _ | headersComplete _ _ | body _ | messageComplete _ =>
          cases hq
      have hmem : Callback.messageBegin ∈ part ++ cb' :: more := by
        rw [hbegin]
        exact List.mem_append_right _ List.mem_cons_self
      have htail : m.calls = .messageBegin :: (m.urls.map .url ++
          m.headers.flatMap HeaderPieces.calls ++ [.headersComplete m.method m.contentLength] ++
          m.body.map .body ++ m.trailers.flatMap HeaderPieces.calls ++
          [.messageComplete m.keepAlive]) := by
        simp [calls, headCalls]
      rw [htail, List.cons_append] at h
      rw [← (List.cons.inj h).2] at hmem
      simp [HeaderPieces.calls] at hmem

end CsiHttp.Server
