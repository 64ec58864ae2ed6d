import CsiHttp.Http

/-!
# `reply_t`

The reply a handler fills in and its serialisation. The content buffer is an owning
pointer that no constructor sets, so every use of it may fail.
-/
namespace CsiHttp.Server

open Lib.Text

/-- `reply_t`. -/
structure Reply where
  status : StatusType
  headers : List Header
  txBuffer : Option Bytes
  boostTxBuffer : Option Bytes
  deriving DecidableEq

def contentLengthName : Bytes := ascii "Content-Length"

def contentTypeName : Bytes := ascii "Content-Type"

namespace Reply

/-- A `reply_t` as constructed: the status holds whatever the memory held. -/
def new (status : StatusType) : Reply := ⟨status, [], none, none⟩

/-- `*_avro_tx_buffer`. -/
def deref (r : Reply) : Except Fault Bytes :=
  match r.txBuffer with
  | some b => .ok b
  | none => .error .nullReplyBuffer

/-- `reply_t::content_length`. -/
def contentLength (r : Reply) : Except Fault Nat := r.deref.map List.length

/-- Writing `bs` to `reply_t::content()`. -/
def writeContent (r : Reply) (bs : Bytes) : Except Fault Reply :=
  r.deref.map (fun b => { r with txBuffer := some (b ++ bs) })

/-- `std::vector::resize`: cut the list or fill it up with empty headers. -/
def resize (hs : List Header) (n : Nat) : List Header :=
  hs.take n ++ List.replicate (n - hs.length) ⟨[], []⟩

/-- The default content type of `create`. -/
def textHtml : Bytes := ascii "text/html"

/-- `reply_t::create`. -/
def create (r : Reply) (s : StatusType) (contentType : Bytes) (extraHeaders : Nat) :
    Except Fault Reply :=
  r.contentLength.map (fun sz =>
    if sz = 0 then
      { r with
        status := s
        headers := (resize r.headers (1 + extraHeaders)).set extraHeaders
          ⟨ascii "Content-Length", ascii "0"⟩ }
    else
      { r with
        status := s
        headers := ((resize r.headers (2 + extraHeaders)).set extraHeaders
          ⟨ascii "Content-Length", decimal (toInt32 sz)⟩).set (extraHeaders + 1)
          ⟨ascii "Content-Type", contentType⟩ })

/-- `reply_t::add`. -/
def add (r : Reply) (h : Header) : Reply := { r with headers := r.headers ++ [h] }

/-- `reply_t::reset`. -/
def reset (r : Reply) : Reply :=
  { r with headers := [], txBuffer := some [], boostTxBuffer := none }

def v1_1 : Bytes := ascii "HTTP/1.1 "

def crlf : Bytes := [13, 10]

def nameValueSeparator : Bytes := ascii ": "

/-- `status_strings::to_buffer`; every status without a line of its own is sent as 500. -/
def statusLine : StatusType → Bytes
  | .ok => ascii "200 OK" ++ crlf
  | .created => ascii "201 Created" ++ crlf
  | .accepted => ascii "202 Accepted" ++ crlf
  | .noContent => ascii "204 No Content" ++ crlf
  | .multipleChoices => ascii "300 Multiple Choices" ++ crlf
  | .movedPermanently => ascii "301 Moved Permanently" ++ crlf
  | .movedTemporarily => ascii "302 Moved Temporarily" ++ crlf
  | .notModified => ascii "304 Not Modified" ++ crlf
  | .badRequest => ascii "400 Bad Request" ++ crlf
  | .unauthorized => ascii "401 Unauthorized" ++ crlf
  | .forbidden => ascii "403 Forbidden" ++ crlf
  | .notFound => ascii "404 Not Found" ++ crlf
  | .preconditionFailed => ascii "412 Precondition Failed" ++ crlf
  | .internalServerError => ascii "500 Internal Server Error" ++ crlf
  | .notImplemented => ascii "501 Not Implemented" ++ crlf
  | .badGateway => ascii "502 Bad Gateway" ++ crlf
  | .serviceUnavailable => ascii "503 Service Unavailable" ++ crlf
  | _ => ascii "500 Internal Server Error" ++ crlf

def headerBuffers (h : Header) : List Bytes := [h.name, nameValueSeparator, h.value, crlf]

/-- `reply_t::to_buffers`: the buffers in order, and the reply with its copy of the content. -/
def toBuffers (r : Reply) : Except Fault (Reply × List Bytes) :=
  r.deref.map (fun content =>
    let head := [v1_1, statusLine r.status] ++ r.headers.flatMap headerBuffers ++ [crlf]
    if content.length = 0 then (r, head)
    else ({ r with boostTxBuffer := some content }, head ++ [content]))

/-- The content buffer is there. -/
def HasBuffer (r : Reply) : Prop := r.txBuffer.isSome

instance (r : Reply) : Decidable r.HasBuffer := inferInstanceAs (Decidable (_ = true))

theorem reset_hasBuffer (r : Reply) : r.reset.HasBuffer := rfl

theorem deref_of_hasBuffer {r : Reply} (h : r.HasBuffer) : ∃ b, r.deref = .ok b := by
  obtain ⟨b, hb⟩ := Option.isSome_iff_exists.mp h
  exact ⟨b, by simp [deref, hb]⟩

theorem deref_of_not_hasBuffer {r : Reply} (h : ¬ r.HasBuffer) : r.deref = .error .nullReplyBuffer := by
  have hb : r.txBuffer = none := by simpa [HasBuffer] using h
  simp [deref, hb]

/-! ## What `create` does to the headers -/

/-- The headers that `create` writes behind those it keeps. -/
def ownHeaders (content ct : Bytes) : List Header :=
  ⟨contentLengthName, decimal (toInt32 content.length)⟩ ::
    if content = [] then [] else [⟨contentTypeName, ct⟩]

theorem length_resize (hs : List Header) (n : Nat) : (resize hs n).length = n := by
  rw [resize, List.length_append, List.length_take, List.length_replicate]
  omega

/-- A longer list starts like a shorter one. -/
theorem take_resize (hs : List Header) {m n : Nat} (h : m ≤ n) :
    (resize hs n).take m = resize hs m := by
  rw [resize, resize, List.take_append, List.take_take, List.length_take, List.take_replicate,
    Nat.min_eq_left h]
  congr 2
  omega

theorem resize_add (hs : List Header) (n k : Nat) :
    ∃ rest, resize hs (n + k) = resize hs n ++ rest ∧ rest.length = k := by
  refine ⟨(resize hs (n + k)).drop n, ?_, ?_⟩
  · rw [← take_resize hs (Nat.le_add_right n k), List.take_append_drop]
  · rw [List.length_drop, length_resize]
    omega

/-- `create` writes its headers behind the entries it keeps. -/
theorem create_eq {r : Reply} {content : Bytes} (h : r.txBuffer = some content) (s : StatusType)
    (ct : Bytes) (n : Nat) :
    r.create s ct n = .ok { r with
      status := s
      headers := resize r.headers n ++ ownHeaders content ct } := by
  have hlen := length_resize r.headers n
  rw [create]
  simp only [contentLength, deref, h, Except.map]
  by_cases hnil : content = []
  · obtain ⟨rest, hrest, hone⟩ := resize_add r.headers n 1
    obtain ⟨e, rfl⟩ := List.length_eq_one_iff.mp hone
    rw [if_pos (by rw [hnil]; rfl), Nat.add_comm 1 n, hrest, List.set_append_right _ _ (by omega),
      hlen, Nat.sub_self, ownHeaders, if_pos hnil, hnil]
    rfl
  · obtain ⟨rest, hrest, htwo⟩ := resize_add r.headers n 2
    obtain ⟨e, e', rfl⟩ := List.length_eq_two.mp htwo
    rw [if_neg (mt List.length_eq_zero_iff.mp hnil), Nat.add_comm 2 n, hrest,
      List.set_append_right _ _ (by omega), List.set_append_right _ _ (by omega), hlen,
      Nat.sub_self, Nat.add_sub_cancel_left, ownHeaders, if_neg hnil]
    rfl

theorem create_ok {r : Reply} (h : r.HasBuffer) (s : StatusType) (ct : Bytes) (n : Nat) :
    ∃ r', r.create s ct n = .ok r' ∧ r'.txBuffer = r.txBuffer := by
  obtain ⟨content, hcontent⟩ := Option.isSome_iff_exists.mp h
  exact ⟨_, create_eq hcontent s ct n, rfl⟩

theorem create_null {r : Reply} (h : ¬ r.HasBuffer) (s : StatusType) (ct : Bytes) (n : Nat) :
    r.create s ct n = .error .nullReplyBuffer := by
  simp [create, contentLength, deref_of_not_hasBuffer h, Except.map]

theorem writeContent_ok {r : Reply} (h : r.HasBuffer) (bs : Bytes) :
    ∃ r', r.writeContent bs = .ok r' ∧ r'.HasBuffer := by
  obtain ⟨b, hb⟩ := deref_of_hasBuffer h
  simp only [writeContent, hb, Except.map]
  exact ⟨_, rfl, rfl⟩

theorem toBuffers_ok {r : Reply} (h : r.HasBuffer) :
    ∃ r' bufs, r.toBuffers = .ok (r', bufs) ∧ r'.txBuffer = r.txBuffer := by
  obtain ⟨b, hb⟩ := deref_of_hasBuffer h
  simp only [toBuffers, hb, Except.map]
  split
  · exact ⟨_, _, rfl, rfl⟩
  · exact ⟨_, _, rfl, rfl⟩

theorem toBuffers_null {r : Reply} (h : ¬ r.HasBuffer) : r.toBuffers = .error .nullReplyBuffer := by
  simp [toBuffers, deref_of_not_hasBuffer h, Except.map]

end Reply

end CsiHttp.Server
