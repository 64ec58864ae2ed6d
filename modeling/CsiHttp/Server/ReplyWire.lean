import CsiHttp.Lib.Wire
import CsiHttp.Server.Reply

/-!
# Replies on a kept-alive connection

A `Draft` is what a handler puts into a reply. The object is the same for all of them, and
the client sees the buffers of one reply after those of the other.
-/
namespace CsiHttp.Server

open Lib Lib.Text

/-- The statuses `status_strings::to_buffer` has a line for. -/
def statusTable : List StatusType :=
  [.ok, .created, .accepted, .noContent, .multipleChoices, .movedPermanently, .movedTemporarily,
    .notModified, .badRequest, .unauthorized, .forbidden, .notFound, .preconditionFailed,
    .internalServerError, .notImplemented, .badGateway, .serviceUnavailable]

/-- Neither CR nor LF, and no blank at either end. -/
def ValueOk (v : Bytes) : Prop := (13 : UInt8) ∉ v ∧ (10 : UInt8) ∉ v ∧ Wire.trim v = v

instance (v : Bytes) : Decidable (ValueOk v) := inferInstanceAs (Decidable (_ ∧ _ ∧ _))

def NameOk (n : Bytes) : Prop :=
  n ≠ [] ∧ (58 : UInt8) ∉ n ∧ (13 : UInt8) ∉ n ∧ (10 : UInt8) ∉ n ∧
    iequals (ascii "Content-Length") n = false ∧ iequals (ascii "Transfer-Encoding") n = false

instance (n : Bytes) : Decidable (NameOk n) :=
  inferInstanceAs (Decidable (_ ∧ _ ∧ _ ∧ _ ∧ _ ∧ _))

/-- What goes into one reply: the content piece by piece, the arguments of `create` and
the headers added to it. -/
structure Draft where
  pieces : List Bytes
  status : StatusType
  contentType : Bytes
  added : List Header
  content_lt : pieces.flatten.length < 2147483648
  status_mem : status ∈ statusTable
  status_body : status ≠ .noContent ∧ status ≠ .notModified
  contentType_ok : ValueOk contentType
  added_ok : ∀ h ∈ added, NameOk h.name ∧ ValueOk h.value

namespace Draft

def content (d : Draft) : Bytes := d.pieces.flatten

/-- The headers the client is to see. -/
def headers (d : Draft) : List Header :=
  ⟨ascii "Content-Length", decimal d.content.length⟩ ::
    (if d.content = [] then d.added else ⟨ascii "Content-Type", d.contentType⟩ :: d.added)

def fields (d : Draft) : List Wire.Field := d.headers.map (fun h => ⟨h.name, h.value⟩)

/-- What the client is to make of the reply. -/
def message (d : Draft) : Wire.Message := ⟨d.status.code, d.fields, d.content⟩

/-- `reset`, the writes to `content()`, `create` and the `add`s. -/
def build (d : Draft) (r : Reply) : Except Fault Reply :=
  (d.pieces.foldlM Reply.writeContent r.reset).bind (fun r =>
    (r.create d.status d.contentType 0).map (fun r => d.added.foldl Reply.add r))

/-- The drafts go through one reply object; the client gets all buffers in order. -/
def send (r : Reply) : List Draft → Except Fault (Reply × Bytes)
  | [] => .ok (r, [])
  | d :: ds =>
    (d.build r).bind (fun r =>
      r.toBuffers.bind (fun p => (send p.1 ds).map (fun q => (q.1, p.2.flatten ++ q.2))))

/-! ## The object after each call -/

theorem foldlM_writeContent (ps : List Bytes) (r : Reply) (c : Bytes) (h : r.txBuffer = some c) :
    ps.foldlM Reply.writeContent r = .ok { r with txBuffer := some (c ++ ps.flatten) } := by
  induction ps generalizing r c with
  | nil =>
    rw [List.flatten_nil, List.append_nil, ← h]
    rfl
  | cons p ps ih =>
    have hw : r.writeContent p = .ok { r with txBuffer := some (c ++ p) } := by
      simp [Reply.writeContent, Reply.deref, h, Except.map]
    rw [List.foldlM_cons, hw]
    change ps.foldlM Reply.writeContent { r with txBuffer := some (c ++ p) } = _
    rw [ih _ (c ++ p) rfl, List.flatten_cons, List.append_assoc]

theorem foldl_add (hs : List Header) (r : Reply) :
    hs.foldl Reply.add r = { r with headers := r.headers ++ hs } := by
  induction hs generalizing r with
  | nil =>
    rw [List.append_nil]
    rfl
  | cons h hs ih =>
    rw [List.foldl_cons, ih, Reply.add, List.append_assoc]
    rfl

/-- The reply as built, whatever the object was used for before. -/
theorem build_eq (d : Draft) (r : Reply) :
    d.build r = .ok ⟨d.status, d.headers, some d.content, none⟩ := by
  have hw := foldlM_writeContent d.pieces r.reset [] rfl
  rw [build, hw]
  simp only [Except.bind, Reply.create, Reply.contentLength, Reply.deref, Reply.reset, Except.map,
    List.nil_append, foldl_add]
  by_cases hc : d.content = []
  · have hlen : d.pieces.flatten.length = 0 := List.length_eq_zero_iff.mpr hc
    have hflat : d.pieces.flatten = [] := hc
    rw [if_pos hlen, headers, if_pos hc, hc, hflat]
    rfl
  · have hlen : ¬ d.pieces.flatten.length = 0 := fun h => hc (List.length_eq_zero_iff.mp h)
    rw [if_neg hlen, headers, if_neg hc, toInt32_of_lt d.content_lt]
    rfl

/-! ## The bytes on the wire -/

/-- The first line without its end. -/
def firstLine (s : StatusType) : Bytes :=
  Reply.v1_1 ++ (Reply.statusLine s).take ((Reply.statusLine s).length - 2)

theorem firstLine_spec : ∀ s ∈ statusTable,
    Reply.v1_1 ++ Reply.statusLine s = firstLine s ++ Wire.crlf ∧ (13 : UInt8) ∉ firstLine s ∧
      Wire.readStatus (firstLine s) = some s.code := by
  decide

theorem bodied : ∀ s ∈ statusTable, s ≠ .noContent ∧ s ≠ .notModified →
    Wire.bodiless s.code = false := by
  decide

theorem flatten_headerBuffers (hs : List Header) :
    (hs.flatMap Reply.headerBuffers).flatten =
      (hs.map (fun h => (⟨h.name, h.value⟩ : Wire.Field))).flatMap Wire.Field.write := by
  induction hs with
  | nil => rfl
  | cons h hs ih =>
    rw [List.flatMap_cons, List.flatten_append, ih, List.map_cons, List.flatMap_cons]
    congr 1
    simp only [Reply.headerBuffers, Wire.Field.write, Wire.Field.line, List.flatten_cons,
      List.flatten_nil, List.append_nil, List.append_assoc]
    rfl

/-- The buffers of a reply, joined, are the message as written. -/
theorem toBuffers_eq (d : Draft) : ∃ r bufs,
    (⟨d.status, d.headers, some d.content, none⟩ : Reply).toBuffers = .ok (r, bufs) ∧
      bufs.flatten = d.message.write (firstLine d.status) := by
  obtain ⟨hline, -, -⟩ := firstLine_spec d.status d.status_mem
  have hhead : ([Reply.v1_1, Reply.statusLine d.status] ++ d.headers.flatMap Reply.headerBuffers ++
      [Reply.crlf]).flatten =
        firstLine d.status ++ Wire.crlf ++ d.fields.flatMap Wire.Field.write ++ Wire.crlf := by
    rw [List.flatten_append, List.flatten_append, flatten_headerBuffers, ← hline]
    simp only [List.flatten_cons, List.flatten_nil, List.append_nil]
    rfl
  simp only [Reply.toBuffers, Reply.deref, Except.map]
  by_cases hc : d.content = []
  · rw [if_pos (List.length_eq_zero_iff.mpr hc)]
    refine ⟨_, _, rfl, ?_⟩
    rw [hhead, Wire.Message.write, message, hc, List.append_nil]
  · rw [if_neg (fun h => hc (List.length_eq_zero_iff.mp h))]
    refine ⟨_, _, rfl, ?_⟩
    rw [List.flatten_append, hhead, List.flatten_singleton]
    rfl

theorem plain_added {d : Draft} {h : Header} (hh : h ∈ d.added) :
    (⟨h.name, h.value⟩ : Wire.Field).Plain := by
  obtain ⟨⟨hne, hcolon, hcr, -⟩, hvcr, -, htrim⟩ := d.added_ok h hh
  exact ⟨hne, hcolon, hcr, hvcr, htrim⟩

theorem plain_length (n : Nat) : (⟨ascii "Content-Length", decimal n⟩ : Wire.Field).Plain := by
  have hname : ascii "Content-Length" ≠ [] ∧ (58 : UInt8) ∉ ascii "Content-Length" ∧
      (13 : UInt8) ∉ ascii "Content-Length" := by decide
  refine ⟨hname.1, hname.2.1, hname.2.2, ?_, ?_⟩
  · intro hm
    have hb := (mem_decimal hm).1
    revert hb
    decide
  · apply Wire.trim_of_no_blank
    intro b hb
    obtain ⟨hlo, -⟩ := mem_decimal hb
    have h32 : b ≠ 32 := by
      rintro rfl
      revert hlo
      decide
    have h9 : b ≠ 9 := by
      rintro rfl
      revert hlo
      decide
    simp [Wire.blank, h32, h9]

theorem plain_type (d : Draft) : (⟨ascii "Content-Type", d.contentType⟩ : Wire.Field).Plain := by
  obtain ⟨hcr, -, htrim⟩ := d.contentType_ok
  have hname : ascii "Content-Type" ≠ [] ∧ (58 : UInt8) ∉ ascii "Content-Type" ∧
      (13 : UInt8) ∉ ascii "Content-Type" := by decide
  exact ⟨hname.1, hname.2.1, hname.2.2, hcr, htrim⟩

theorem plain (d : Draft) : ∀ f ∈ d.fields, f.Plain := by
  intro f hf
  obtain ⟨h, hh, rfl⟩ := List.mem_map.mp hf
  rw [headers] at hh
  rcases List.mem_cons.mp hh with rfl | hh
  · exact plain_length _
  · by_cases hc : d.content = []
    · rw [if_pos hc] at hh
      exact plain_added hh
    · rw [if_neg hc] at hh
      rcases List.mem_cons.mp hh with rfl | hh
      · exact d.plain_type
      · exact plain_added hh

/-- The added headers have no part in the framing. -/
theorem added_unframed (d : Draft) :
    (d.added.map (fun h => (⟨h.name, h.value⟩ : Wire.Field))).any Wire.isEncoding = false ∧
      (d.added.map (fun h => (⟨h.name, h.value⟩ : Wire.Field))).filter Wire.isLength = [] := by
  constructor
  · rw [List.any_map, List.any_eq_false]
    intro h hh
    obtain ⟨⟨-, -, -, -, -, henc⟩, -⟩ := d.added_ok h hh
    rw [Function.comp_apply, Wire.isEncoding, henc]
    exact Bool.false_ne_true
  · rw [List.filter_eq_nil_iff]
    intro f hf
    obtain ⟨h, hh, rfl⟩ := List.mem_map.mp hf
    obtain ⟨⟨-, -, -, -, hlen, -⟩, -⟩ := d.added_ok h hh
    rw [Wire.isLength, hlen]
    exact Bool.false_ne_true

theorem bodyLength_fields (d : Draft) :
    Wire.bodyLength d.status.code d.fields = some d.content.length := by
  obtain ⟨henc, hlen⟩ := d.added_unframed
  have hl : Wire.isLength ⟨ascii "Content-Length", decimal d.content.length⟩ = true := rfl
  have hle : Wire.isEncoding ⟨ascii "Content-Length", decimal d.content.length⟩ = false := rfl
  have ht : Wire.isLength ⟨ascii "Content-Type", d.contentType⟩ = false := rfl
  have hte : Wire.isEncoding ⟨ascii "Content-Type", d.contentType⟩ = false := rfl
  have hfields : d.fields.any Wire.isEncoding = false ∧
      d.fields.filter Wire.isLength =
        [⟨ascii "Content-Length", decimal d.content.length⟩] := by
    rw [fields, headers]
    by_cases hc : d.content = []
    · rw [if_pos hc, List.map_cons, List.any_cons, List.filter_cons, if_pos hl, hle, henc, hlen]
      exact ⟨rfl, rfl⟩
    · rw [if_neg hc, List.map_cons, List.map_cons, List.any_cons, List.any_cons, List.filter_cons,
        List.filter_cons, if_pos hl, if_neg (by rw [ht]; exact Bool.false_ne_true), hle, hte, henc,
        hlen]
      exact ⟨rfl, rfl⟩
  rw [Wire.bodyLength, bodied d.status d.status_mem d.status_body,
    if_neg Bool.false_ne_true, hfields.1, if_neg Bool.false_ne_true, hfields.2]
  exact Wire.readDecimal_decimal _

theorem written (d : Draft) : d.message.Written (firstLine d.status) := by
  obtain ⟨-, hcr, hstatus⟩ := firstLine_spec d.status d.status_mem
  exact ⟨hcr, hstatus, d.plain, d.bodyLength_fields⟩

theorem send_eq (r : Reply) (ds : List Draft) : ∃ r', send r ds =
    .ok (r', ds.flatMap (fun d => d.message.write (firstLine d.status))) := by
  induction ds generalizing r with
  | nil => exact ⟨r, rfl⟩
  | cons d ds ih =>
    obtain ⟨r₁, bufs, hbufs, hbytes⟩ := d.toBuffers_eq
    obtain ⟨r₂, hsend⟩ := ih r₁
    refine ⟨r₂, ?_⟩
    rw [send, build_eq, Except.bind, hbufs, Except.bind, hsend, Except.map, List.flatMap_cons,
      hbytes]

end Draft

/-- The client splits the replies of a connection into exactly the messages that were
built, with no byte left over. -/
theorem replies_read_back (r : Reply) (ds : List Draft) : ∃ r' bytes,
    Draft.send r ds = .ok (r', bytes) ∧ Wire.readMessages bytes = some (ds.map Draft.message) := by
  obtain ⟨r', hsend⟩ := Draft.send_eq r ds
  refine ⟨r', _, hsend, ?_⟩
  have hwritten : ∀ p ∈ ds.map (fun d => (d.message, Draft.firstLine d.status)),
      p.1.Written p.2 := by
    intro p hp
    obtain ⟨d, -, rfl⟩ := List.mem_map.mp hp
    exact d.written
  have hread := Wire.readMessages_write hwritten
  rw [List.flatMap_map, List.map_map] at hread
  exact hread

/-- A reply whose content looks like the end of one reply and the start of the next. -/
def Draft.disguised : Draft where
  pieces := [[13, 10], ascii "HTTP/1.1 200 OK", [13, 10], ascii "Content-Length: 0", [13, 10]]
  status := .notFound
  contentType := ascii "text/plain"
  added := [⟨ascii "Request-Id", ascii "7"⟩, ⟨ascii "Connection", ascii "keep-alive"⟩]
  content_lt := by decide
  status_mem := by decide
  status_body := by decide
  contentType_ok := by decide
  added_ok := by decide

example : (Draft.send (.new .undefined) [.disguised, .disguised]).toOption.bind
    (fun p => Wire.readMessages p.2) = some [Draft.disguised.message, Draft.disguised.message] := by
  decide +kernel

end CsiHttp.Server
