import CsiHttp.Lib.Wire
import CsiHttp.Server.Closing
import CsiHttp.Server.TableParser

/-!
# Where a reply ends

A client finds the end of a reply from its head: from `Content-Length`, or from the rules
under which a reply has no body at all. `create` writes the length through an `int`, and
`to_buffers` decides about the body from the length of the content alone.
-/
namespace CsiHttp.Server

open Lib Lib.Text

namespace Reply

/-- The bytes up to and with the empty line that ends the headers. -/
def head (r : Reply) : Bytes :=
  ([v1_1, statusLine r.status] ++ r.headers.flatMap headerBuffers ++ [crlf]).flatten

/-- A reply that holds this content. -/
def holding (r : Reply) (content : Bytes) : Reply := { r with txBuffer := some content }

/-- The buffers of a reply are its head and its content. -/
theorem toBuffers_holding {r : Reply} {content : Bytes} (h : r.txBuffer = some content) :
    ∃ sent bufs, r.toBuffers = .ok (sent, bufs) ∧ sent.head = r.head ∧
      bufs.flatten = r.head ++ content := by
  have hderef : r.deref = .ok content := by rw [deref, h]
  rw [toBuffers, hderef]
  dsimp only [Except.map]
  by_cases hnil : content.length = 0
  · rw [if_pos hnil, List.length_eq_zero_iff.mp hnil]
    exact ⟨r, _, rfl, rfl, (List.append_nil _).symm⟩
  · rw [if_neg hnil]
    refine ⟨_, _, rfl, rfl, ?_⟩
    rw [List.flatten_append, List.flatten_singleton]
    rfl

/-- What `create` makes of a reply with this content. -/
theorem create_holding (r : Reply) (content : Bytes) (s : StatusType) (ct : Bytes) (extra : Nat) :
    ∃ made, (r.holding content).create s ct extra = .ok made ∧ made.status = s ∧
      made.txBuffer = some content ∧
      made.headers[extra]? = some ⟨ascii "Content-Length", decimal (toInt32 content.length)⟩ := by
  refine ⟨_, create_eq rfl s ct extra, rfl, rfl, ?_⟩
  dsimp only
  rw [List.getElem?_append_right (Nat.le_of_eq (length_resize _ _)), length_resize, Nat.sub_self]
  rfl

/-! ## The length in the head -/

/-- The length that `create` has stored, at the place of the first header after the extra ones,
is the number of bytes after the head. -/
def LengthRight (made : Reply) (extra n : Nat) : Prop :=
  ∃ value sent bufs, made.headers[extra]? = some ⟨ascii "Content-Length", value⟩ ∧
    made.toBuffers = .ok (sent, bufs) ∧ Wire.readDecimal value = some n ∧
    bufs.flatten.length = made.head.length + n

theorem lengthRight_of_create {r made : Reply} {content : Bytes} {s : StatusType} {ct : Bytes}
    {extra : Nat} (h : (r.holding content).create s ct extra = .ok made) :
    made.LengthRight extra content.length ↔
      Wire.readDecimal (decimal (toInt32 content.length)) = some content.length := by
  obtain ⟨made', hmade, -, htx, hlength⟩ := create_holding r content s ct extra
  rw [h] at hmade
  cases hmade
  constructor
  · intro hright
    obtain ⟨value, sent, bufs, hvalue, -, hread, -⟩ := hright
    rw [hlength] at hvalue
    cases hvalue
    exact hread
  · intro hread
    obtain ⟨sent, bufs, hbufs, -, hbytes⟩ := toBuffers_holding htx
    exact ⟨_, sent, bufs, hlength, hbufs, hread, by rw [hbytes, List.length_append]⟩

/-- `Content-Length` is right exactly for the sizes that an `int` can hold. -/
theorem contentLength_right_iff (r : Reply) (content : Bytes) (s : StatusType) (ct : Bytes)
    (extra : Nat) :
    ∃ made, (r.holding content).create s ct extra = .ok made ∧
      (made.LengthRight extra content.length ↔ content.length < 2147483648) := by
  obtain ⟨made, hmade, -⟩ := create_holding r content s ct extra
  refine ⟨made, hmade, ?_⟩
  rw [lengthRight_of_create hmade, Wire.readDecimal_toInt32]

/-- Two gibibytes are sent under a negative length. -/
theorem contentLength_not_right :
    ¬ ∀ (r made : Reply) (content : Bytes) (s : StatusType) (ct : Bytes) (extra : Nat),
      content.length < 18446744073709551616 →
      (r.holding content).create s ct extra = .ok made →
      made.LengthRight extra content.length := by
  intro h
  obtain ⟨n, hn⟩ : ∃ n, n = 2147483648 := ⟨_, rfl⟩
  have hlength : (List.replicate n (65 : UInt8)).length = n := List.length_replicate
  obtain ⟨made, hmade, -⟩ :=
    create_holding (.new .undefined) (List.replicate n 65) .ok textHtml 0
  have hright := h _ made _ _ _ _ (by rw [hlength, hn]; decide) hmade
  rw [lengthRight_of_create hmade, Wire.readDecimal_toInt32, hlength, hn] at hright
  exact absurd hright (by decide)

end Reply

/-! ## Replies without a body -/

/-- The bytes of a write after the empty line that ends the headers. -/
def Write.afterHead (w : Write) : Bytes := w.buffers.flatten.drop w.reply.head.length

/-- A client reads no body after the head. -/
def Bodiless (method : Option Nat) (status : StatusType) : Prop :=
  methodToString method = some (ascii "HEAD") ∨ status = .noContent ∨ status = .notModified

instance (method : Option Nat) (status : StatusType) : Decidable (Bodiless method status) :=
  inferInstanceAs (Decidable (_ ∨ _ ∨ _))

section Sessions

variable {State : Type}

/-- `send_reply` writes the head and all of the content. -/
theorem sendReply_holding (E : Externals) {s : Session State} {content : Bytes}
    (h : s.conn.reply.txBuffer = some content) :
    ∃ w, (s.sendReply E).writes = s.writes ++ [w] ∧
      w.buffers.flatten = w.reply.head ++ content := by
  have hp := sendReply_prepared E s
  obtain ⟨-, hreply⟩ := prepared_reply E s
  unfold Session.sendReply
  generalize (((s.note (.replying s.conn.reply)).logRequest E).setWaiting false).addClose = u
    at hp hreply ⊢
  have htx : u.conn.reply.txBuffer = some content := by rw [hreply, h]
  obtain ⟨sent, bufs, hbufs, hhead, hbytes⟩ := Reply.toBuffers_holding htx
  unfold Session.startWrite
  rw [hbufs]
  refine ⟨⟨sent, bufs⟩, congrArg (· ++ _) hp.writes, ?_⟩
  rw [hbytes, hhead]

/-- Whatever `create` makes of the content is sent after the head. -/
theorem sendReply_created (E : Externals) (s : Session State) (content : Bytes)
    (status : StatusType) (ct : Bytes) (extra : Nat) :
    ∃ made w, (s.conn.reply.holding content).create status ct extra = .ok made ∧
      ((s.setReply made).sendReply E).writes = s.writes ++ [w] ∧
      w.reply.head <+: w.buffers.flatten ∧ w.afterHead = content := by
  obtain ⟨made, hmade, -, htx, -⟩ := Reply.create_holding s.conn.reply content status ct extra
  obtain ⟨w, hw, hbytes⟩ := sendReply_holding E (s := s.setReply made) htx
  refine ⟨made, w, hmade, hw, ⟨content, hbytes.symm⟩, ?_⟩
  rw [Write.afterHead, hbytes, List.drop_left]

/-- A reply that must have no body has none exactly if it had no content. -/
theorem bodiless_iff (E : Externals) (s : Session State) (content : Bytes) (status : StatusType)
    (ct : Bytes) (extra : Nat) :
    ∃ made w, (s.conn.reply.holding content).create status ct extra = .ok made ∧
      ((s.setReply made).sendReply E).writes = s.writes ++ [w] ∧
      w.reply.head <+: w.buffers.flatten ∧
      ((Bodiless s.conn.request.method status → w.afterHead = []) ↔
        ¬ Bodiless s.conn.request.method status ∨ content = []) := by
  obtain ⟨made, w, hmade, hw, hprefix, hafter⟩ := sendReply_created E s content status ct extra
  refine ⟨made, w, hmade, hw, hprefix, ?_⟩
  rw [hafter, imp_iff_not_or]

end Sessions

/-- The handler of a `HEAD` request answers as it would for `GET`. -/
theorem head_with_body :
    ¬ ∀ (E : Externals) (s : Session Unit) (made : Reply) (w : Write) (content : Bytes)
        (status : StatusType) (ct : Bytes) (extra : Nat),
      (s.conn.reply.holding content).create status ct extra = .ok made →
      ((s.setReply made).sendReply E).writes = s.writes ++ [w] →
      Bodiless s.conn.request.method status → w.afterHead = [] := by
  intro h
  let conn := Connection.new (ascii "request_id") .zero ()
  let asked : Session Unit :=
    .new { conn with request := { conn.request with method := some 2 } }
  obtain ⟨made, w, hmade, hw, -, hafter⟩ :=
    sendReply_created getServer asked (ascii "hello") .ok Reply.textHtml 0
  have hempty := h getServer asked made w _ _ _ _ hmade hw (by decide)
  rw [hafter] at hempty
  revert hempty
  decide

end CsiHttp.Server
