import CsiHttp.Server.MessageAssembly

/-!
# Two connections, one message

What an earlier request left behind does not reach a later one. `Alike` relates two
connections that have taken the same callbacks since their last `on_message_begin`: they
agree on all that is read again, and on the method and the keep-alive decision once the
message has set them. The header arrays may differ behind the text in them.
-/
namespace CsiHttp.Server

open Lib Lib.Text

/-- Two arrays of which the first `i` and `j` bytes are the same text. -/
def SameText {n : Nat} (a : CharArray n) (i : Nat) (b : CharArray n) (j : Nat) : Prop :=
  ∃ s, a.Holds s ∧ i = s.length ∧ b.Holds s ∧ j = s.length

section SameText

variable {n : Nat} {a b : CharArray n} {i j : Nat}

theorem SameText.cstr (h : SameText a i b j) : a.cstr = b.cstr := by
  obtain ⟨s, ha, -, hb, -⟩ := h
  rw [ha.cstr, hb.cstr]

theorem sameText_clear (a b : CharArray n) (hn : 0 < n) : SameText a.clear 0 b.clear 0 :=
  ⟨[], a.clear_holds hn, rfl, b.clear_holds hn, rfl⟩

/-- A piece is appended to both texts or to neither. -/
theorem SameText.append (h : SameText a i b j) (piece : Bytes) :
    (a.append i piece = none ∧ b.append j piece = none) ∨
    ∃ a' b', a.append i piece = some a' ∧ b.append j piece = some b' ∧
      SameText a' (i + piece.length) b' (j + piece.length) := by
  obtain ⟨s, ha, rfl, hb, rfl⟩ := h
  by_cases hfit : s.length + piece.length < n
  · right
    obtain ⟨a', ha'⟩ := Option.isSome_iff_exists.mp (CharArray.append_isSome (a := a).mpr hfit)
    obtain ⟨b', hb'⟩ := Option.isSome_iff_exists.mp (CharArray.append_isSome (a := b).mpr hfit)
    refine ⟨a', b', ha', hb', s ++ piece, CharArray.append_holds ha ha', ?_,
      CharArray.append_holds hb hb', ?_⟩
    · rw [List.length_append]
    · rw [List.length_append]
  · left
    rw [← Option.not_isSome_iff_eq_none, ← Option.not_isSome_iff_eq_none,
      CharArray.append_isSome, CharArray.append_isSome]
    exact ⟨hfit, hfit⟩

end SameText

def Callback.setsMethod : Callback → Bool
  | .headersComplete _ _ => true
  | _ => false

def Callback.decidesKeepAlive : Callback → Bool
  | .messageComplete _ => true
  | _ => false

namespace Connection

variable {State : Type} {parseUrl : Bytes → Option UrlFields}
variable {c c' : Connection State} {past cbs : List Callback}

/-- The reply as `on_message_begin` leaves it; the status is an old one. -/
def FreshReply (c : Connection State) : Prop := ∃ status, c.reply = ⟨status, [], some [], none⟩

/-- After the callbacks `past` of one message. -/
structure Alike (past : List Callback) (c c' : Connection State) : Prop where
  request : c'.request = { c.request with method := c'.request.method }
  method : past.any Callback.setsMethod = true → c'.request.method = c.request.method
  keepAlive : past.any Callback.decidesKeepAlive = true → c'.keepAlive = c.keepAlive
  reply : c.FreshReply ∧ c'.FreshReply
  flag : c'.lastHeaderWasValue = c.lastHeaderWasValue
  key : SameText c.currentHeaderKey c.currentHeaderKeyLen
    c'.currentHeaderKey c'.currentHeaderKeyLen
  val : SameText c.currentHeaderVal c.currentHeaderValLen
    c'.currentHeaderVal c'.currentHeaderValLen

/-- Whatever came before, a message begins alike. -/
theorem alike_messageBegin (c c' : Connection State) :
    Alike [.messageBegin] c.onMessageBegin c'.onMessageBegin where
  request := rfl
  method := fun h => nomatch h
  keepAlive := fun h => nomatch h
  reply := ⟨⟨_, rfl⟩, ⟨_, rfl⟩⟩
  flag := rfl
  key := sameText_clear _ _ maxHeaderSize_pos
  val := sameText_clear _ _ maxHeaderSize_pos

/-- A callback that neither sets the method nor decides about keep-alive. -/
theorem Alike.later (h : Alike past c c') (cb : Callback) (hm : cb.setsMethod = false)
    (hk : cb.decidesKeepAlive = false) : Alike (past ++ [cb]) c c' := by
  refine { h with method := ?_, keepAlive := ?_ }
  · rw [List.any_append, List.any_cons, hm, List.any_nil, Bool.or_false, Bool.or_false]
    exact h.method
  · rw [List.any_append, List.any_cons, hk, List.any_nil, Bool.or_false, Bool.or_false]
    exact h.keepAlive

/-- Both commit the same header. -/
theorem Alike.commitPending (h : Alike past c c') : Alike past c.commitPending c'.commitPending := by
  unfold Connection.commitPending
  rw [h.flag]
  by_cases hf : c.lastHeaderWasValue
  · rw [if_pos hf, if_pos hf]
    constructor
    · simp only [commitHeader, CharArray.cstr_toLower, h.key.cstr, h.val.cstr]
      rw [h.request]
    · exact h.method
    · exact h.keepAlive
    · exact h.reply
    · exact h.flag
    · exact sameText_clear _ _ maxHeaderSize_pos
    · exact sameText_clear _ _ maxHeaderSize_pos
  · rw [if_neg hf, if_neg hf]
    exact h

/-- One callback: the same return value, or the same fault, and connections alike again. -/
theorem Alike.callback (parseUrl : Bytes → Option UrlFields) (h : Alike past c c')
    {cb : Callback} (hcb : cb ≠ .messageBegin) :
    (∃ f, c.callback parseUrl cb = .error f ∧ c'.callback parseUrl cb = .error f) ∨
    ∃ d d' r, c.callback parseUrl cb = .ok (d, r) ∧ c'.callback parseUrl cb = .ok (d', r) ∧
      Alike (past ++ [cb]) d d' := by
  cases cb with
  | messageBegin => exact absurd rfl hcb
  | url piece =>
    right
    simp only [Connection.callback, onUrl]
    cases parseUrl piece with
    | none => exact ⟨_, _, _, rfl, rfl, h.later _ rfl rfl⟩
    | some f =>
      refine ⟨_, _, _, rfl, rfl, ?_⟩
      have h := h.later (.url piece) rfl rfl
      refine { h with request := ?_ }
      rw [h.request]
  | headerField piece =>
    have hp := h.commitPending
    simp only [Connection.callback, onHeaderField]
    rcases hp.key.append piece with ⟨hn, hn'⟩ | ⟨k, k', hk, hk', hs⟩
    · left
      rw [hn, hn']
      exact ⟨_, rfl, rfl⟩
    · right
      rw [hk, hk']
      exact ⟨_, _, _, rfl, rfl, { hp.later _ rfl rfl with flag := rfl, key := hs }⟩
  | headerValue piece =>
    simp only [Connection.callback, onHeaderValue]
    rcases h.val.append piece with ⟨hn, hn'⟩ | ⟨v, v', hv, hv', hs⟩
    · left
      rw [hn, hn']
      exact ⟨_, rfl, rfl⟩
    · right
      rw [hv, hv']
      exact ⟨_, _, _, rfl, rfl, { h.later _ rfl rfl with flag := rfl, val := hs }⟩
  | headersComplete method len =>
    right
    refine ⟨_, _, _, rfl, rfl, ?_⟩
    have hp := h.commitPending
    refine { hp with request := ?_, method := fun _ => rfl, keepAlive := ?_ }
    · change Request.mk _ _ _ _ _ _ _ _ = _
      rw [hp.request]
      rfl
    · rw [List.any_append, List.any_cons, List.any_nil, Bool.or_false]
      exact fun hk => hp.keepAlive ((Bool.or_false _).symm.trans hk)
  | body piece =>
    right
    refine ⟨_, _, _, rfl, rfl, ?_⟩
    have h := h.later (.body piece) rfl rfl
    refine { h with request := ?_ }
    simp only [onBody]
    rw [h.request]
  | messageComplete k =>
    right
    refine ⟨_, _, _, rfl, rfl, ?_⟩
    refine { h with method := ?_, keepAlive := fun _ => rfl }
    rw [List.any_append, List.any_cons, List.any_nil, Bool.or_false]
    exact fun hm => h.method ((Bool.or_false _).symm.trans hm)

/-- A whole sequence: the same callbacks are made, it ends the same way, and the
connections are alike. -/
theorem Alike.deliver (parseUrl : Bytes → Option UrlFields) (h : Alike past c c')
    (hcbs : .messageBegin ∉ cbs) :
    (c'.deliver parseUrl cbs).made = (c.deliver parseUrl cbs).made ∧
    (c'.deliver parseUrl cbs).stop = (c.deliver parseUrl cbs).stop ∧
    Alike (past ++ (c.deliver parseUrl cbs).made) (c.deliver parseUrl cbs).conn
      (c'.deliver parseUrl cbs).conn := by
  induction cbs generalizing c c' past with
  | nil => exact ⟨rfl, rfl, (List.append_nil past).symm ▸ h⟩
  | cons cb cbs ih =>
    obtain ⟨hne, hcbs⟩ := List.ne_and_not_mem_of_not_mem_cons hcbs
    rcases h.callback parseUrl hne.symm with
      ⟨f, he, he'⟩ | ⟨d, d', r, hok, hok', hd⟩
    · rw [deliver_cons_error he, deliver_cons_error he']
      exact ⟨rfl, rfl, (List.append_nil past).symm ▸ h⟩
    · by_cases hr : r = 0
      · subst hr
        obtain ⟨hmade, hstop, halike⟩ := ih hd hcbs
        rw [deliver_cons_ok hok, deliver_cons_ok hok']
        refine ⟨congrArg (List.cons cb) hmade, hstop, ?_⟩
        rw [List.append_assoc] at halike
        exact halike
      · rw [deliver_cons_refused hok hr, deliver_cons_refused hok' hr]
        exact ⟨rfl, rfl, hd⟩

/-- What a handler starts from. -/
structure Start where
  request : Request
  keepAlive : Bool
  replyHeaders : List Header
  replyContent : Option Bytes

def start (c : Connection State) : Start :=
  ⟨c.request, c.keepAlive, c.reply.headers, c.reply.txBuffer⟩

theorem calls_eq_begin (m : MessagePieces) : ∃ cbs, m.calls = .messageBegin :: cbs ∧
    .messageBegin ∉ cbs ∧ cbs.any Callback.setsMethod = true ∧
    cbs.any Callback.decidesKeepAlive = true := by
  refine ⟨m.urls.map .url ++ m.headers.flatMap HeaderPieces.calls ++
    [.headersComplete m.method m.contentLength] ++ m.body.map .body ++
    m.trailers.flatMap HeaderPieces.calls ++ [.messageComplete m.keepAlive], ?_, ?_, ?_, ?_⟩
  · simp [MessagePieces.calls, MessagePieces.headCalls]
  · simp [HeaderPieces.calls]
  · simp [List.any_append, Callback.setsMethod]
  · simp [List.any_append, Callback.decidesKeepAlive]

/-- From any two connections the callbacks of a message have the same outcome, and once the
message is complete a handler starts from the same values, the reply being empty. A message
that the arrays have room for does become complete. -/
theorem requests_independent (c c' : Connection State) (m : MessagePieces) :
    (c'.deliver parseUrl m.calls).made = (c.deliver parseUrl m.calls).made ∧
    (c'.deliver parseUrl m.calls).stop = (c.deliver parseUrl m.calls).stop ∧
    ((c.deliver parseUrl m.calls).stop = .finished →
      (c'.deliver parseUrl m.calls).conn.start = (c.deliver parseUrl m.calls).conn.start ∧
      (c.deliver parseUrl m.calls).conn.start.replyHeaders = [] ∧
      (c.deliver parseUrl m.calls).conn.start.replyContent = some []) ∧
    (Accepted parseUrl m.urls → m.Delivered → m.Fits →
      (c.deliver parseUrl m.calls).stop = .finished) := by
  obtain ⟨cbs, hcalls, hbegin, hmethod, hkeep⟩ := calls_eq_begin m
  have hfirst : ∀ d : Connection State, d.deliver parseUrl m.calls =
      { d.onMessageBegin.deliver parseUrl cbs with
        made := .messageBegin :: (d.onMessageBegin.deliver parseUrl cbs).made } := by
    intro d
    rw [hcalls]
    exact deliver_cons_ok rfl
  obtain ⟨hmade, hstop, halike⟩ := (alike_messageBegin c c').deliver parseUrl hbegin
  refine ⟨?_, ?_, ?_, ?_⟩
  · rw [hfirst, hfirst]
    exact congrArg (List.cons _) hmade
  · rw [hfirst, hfirst]
    exact hstop
  · intro hfin
    rw [hfirst] at hfin
    have hall : (c.onMessageBegin.deliver parseUrl cbs).made = cbs :=
      congrArg Delivery.made (delivers_of_finished hfin)
    rw [hall] at halike
    obtain ⟨⟨status, hr⟩, ⟨status', hr'⟩⟩ := halike.reply
    rw [hfirst, hfirst]
    have hreq : (c'.onMessageBegin.deliver parseUrl cbs).conn.request =
        (c.onMessageBegin.deliver parseUrl cbs).conn.request := by
      rw [halike.request, halike.method (by rw [List.any_append, hmethod, Bool.or_true])]
    have hka := halike.keepAlive (by rw [List.any_append, hkeep, Bool.or_true])
    refine ⟨?_, ?_, ?_⟩
    · simp only [start, hreq, hka, hr, hr']
    · simp only [start, hr]
    · simp only [start, hr]
  · intro hu hd hf
    obtain ⟨d, h, -⟩ := message_delivers c hu hd hf
    exact congrArg Delivery.stop h

end Connection

end CsiHttp.Server
