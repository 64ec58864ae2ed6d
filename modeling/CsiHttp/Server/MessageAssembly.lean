import CsiHttp.Server.HeaderAssembly
import CsiHttp.Server.UrlAssembly

/-!
# A whole message, from `on_message_begin` to `on_message_complete`

The request a handler will see, computed from the pieces in which the parser delivers a
message. The flag `_last_header_was_value` survives the end of the header section, so a
trailer section starts by committing an empty header, and nothing commits its last
field.
-/
namespace CsiHttp.Server

open Lib Lib.Text

namespace MessagePieces

/-- The headers the connection records for a message. -/
def recordedHeaders (m : MessagePieces) : List Header :=
  if m.trailers = [] then m.headers.map HeaderPieces.stored
  else
    m.headers.map HeaderPieces.stored ++ (if m.headers = [] then [] else [⟨[], []⟩]) ++
      m.trailers.dropLast.map HeaderPieces.stored

/-- The request the connection assembles. -/
def assembled (parseUrl : Bytes → Option UrlFields) (m : MessagePieces) : Request where
  method := some m.method
  url := m.urls.flatMap (pathOf parseUrl)
  query := m.urls.flatMap (queryOf parseUrl)
  requestId := []
  requestUuid := 0
  headers := m.recordedHeaders
  contentLength := m.contentLength
  rxBuffer := m.body.flatten

/-- Every header and trailer field arrives in at least one piece of each kind. -/
def Delivered (m : MessagePieces) : Prop := ∀ p ∈ m.headers ++ m.trailers, p.Delivered

/-- The bytes of the header section: each line has a separator and a line end. -/
def sectionSize (m : MessagePieces) : Nat :=
  (m.headers.map (fun p => p.header.name.length + p.header.value.length + 4)).sum

/-- Every header and trailer field leaves room for the terminating zero. -/
def Fits (m : MessagePieces) : Prop := ∀ p ∈ m.headers ++ m.trailers, p.Fits

instance (m : MessagePieces) : Decidable m.Delivered :=
  inferInstanceAs (Decidable (∀ p ∈ m.headers ++ m.trailers, p.Delivered))

instance (m : MessagePieces) : Decidable m.Fits :=
  inferInstanceAs (Decidable (∀ p ∈ m.headers ++ m.trailers, p.Fits))

end MessagePieces

namespace Connection

variable {State : Type} {parseUrl : Bytes → Option UrlFields}
variable {c c' : Connection State} {base : List Header}

/-- The end of the header section records the pending header; the flag, which stays,
makes the next field commit the emptied arrays once more. -/
theorem Naming.headersComplete (h : Naming c base []) (method len : Nat) :
    (c.onHeadersComplete method len).request.headers = base ∧
      Naming (c.onHeadersComplete method len)
        (base ++ if c.lastHeaderWasValue then [⟨[], []⟩] else []) [] := by
  refine ⟨h.headers, ?_⟩
  cases hf : c.lastHeaderWasValue with
  | false =>
    have hc : (c.onHeadersComplete method len).lastHeaderWasValue = false := by
      simp [onHeadersComplete, commitPending, hf]
    have hp := commitPending_of_name hc
    constructor
    · rw [hp, if_neg Bool.false_ne_true, List.append_nil]
      exact h.headers
    · rw [hp]
      exact h.keyLen
    · rw [hp]
      exact h.valLen
    · rw [hp]
      exact h.key
    · rw [hp]
      exact h.val
  | true =>
    have hc : (c.onHeadersComplete method len).lastHeaderWasValue = true := by
      simp [onHeadersComplete, commitPending, commitHeader, hf]
    have hv : Valuing (c.onHeadersComplete method len) base [] [] :=
      ⟨h.headers, h.keyLen, h.valLen, h.key, h.val⟩
    exact hv.naming hc

/-- The frame of the header callbacks, with what `on_headers_complete` sets. -/
theorem onHeadersComplete_frame (c : Connection State) (method len : Nat) :
    HeadersOnly { c with request := { c.request with method := some method, contentLength := len } }
      (c.onHeadersComplete method len) := by
  unfold onHeadersComplete commitPending
  split <;> rfl

/-- The connection after body pieces. -/
def withBody (c : Connection State) (bytes : Bytes) : Connection State :=
  { c with request := { c.request with rxBuffer := c.request.rxBuffer ++ bytes } }

/-- Body pieces are appended in order. -/
theorem body_delivers (parseUrl : Bytes → Option UrlFields) (c : Connection State) (pieces : List Bytes) :
    Delivers parseUrl c (pieces.map .body) (c.withBody pieces.flatten) := by
  induction pieces generalizing c with
  | nil =>
    unfold withBody
    rw [List.flatten_nil, List.append_nil]
    exact .refl
  | cons p ps ih =>
    have hrest := ih (c.onBody p)
    simp only [withBody, onBody, List.append_assoc] at hrest
    exact .cons rfl hrest

/-- Naming looks at the headers, the two arrays and the flag only. -/
theorem Naming.congr {s : Bytes} (h : Naming c base s) (c' : Connection State)
    (hh : c'.request.headers = c.request.headers) (hf : c'.lastHeaderWasValue = c.lastHeaderWasValue)
    (hk : c'.currentHeaderKey = c.currentHeaderKey) (hv : c'.currentHeaderVal = c.currentHeaderVal)
    (hkl : c'.currentHeaderKeyLen = c.currentHeaderKeyLen)
    (hvl : c'.currentHeaderValLen = c.currentHeaderValLen) : Naming c' base s := by
  obtain ⟨headers, keyLen, valLen, key, val⟩ := h
  unfold commitPending at headers keyLen valLen key val
  by_cases hc : c.lastHeaderWasValue
  · rw [if_pos hc] at headers keyLen valLen key val
    have hp : c'.commitPending = c'.commitHeader := if_pos (hf.trans hc)
    constructor
    · rw [hp, ← headers]
      simp only [commitHeader, hh, hk, hv]
    · rw [hp, ← keyLen]
      rfl
    · rw [hp, ← valLen]
      rfl
    · rw [hp]
      simpa only [commitHeader, hk] using key
    · rw [hp]
      simpa only [commitHeader, hv] using val
  · rw [if_neg hc] at headers keyLen valLen key val
    have hp : c'.commitPending = c' := if_neg (hf ▸ hc)
    constructor
    · rw [hp, hh, headers]
    · rw [hp, hkl, keyLen]
    · rw [hp, hvl, valLen]
    · rw [hp, hk]
      exact key
    · rw [hp, hv]
      exact val

/-- The last header of a section stays pending. -/
theorem Naming.headers_of_pending (h : Naming c base []) (hf : c.lastHeaderWasValue = true) :
    c.request.headers = base.dropLast := by
  have hb := h.headers
  have hc : c.commitPending = c.commitHeader := by simp [commitPending, hf]
  rw [hc] at hb
  rw [← hb]
  exact List.dropLast_concat.symm

/-! ## The header section -/

/-- The connection when the header section of `m` is complete, up to the header scratch
space and the header list. -/
def afterHead (parseUrl : Bytes → Option UrlFields) (m : MessagePieces) (c : Connection State) :
    Connection State :=
  { c with
    request := { m.assembled parseUrl with rxBuffer := [] }
    reply := c.reply.reset
    requestComplete := false }

/-- A header section that fits is taken in whole. -/
theorem head_delivers (c : Connection State) {m : MessagePieces} (hu : Accepted parseUrl m.urls)
    (hd : ∀ p ∈ m.headers, p.Delivered) (hf : ∀ p ∈ m.headers, p.Fits) :
    ∃ c', Delivers parseUrl c m.headCalls c' ∧
      c'.request.headers = m.headers.map HeaderPieces.stored ∧
      Naming c' (m.headers.map HeaderPieces.stored ++
        if m.headers = [] then [] else [⟨[], []⟩]) [] ∧
      HeadersOnly (c.afterHead parseUrl m) c' := by
  have hurls := urls_delivers c.onMessageBegin hu
  have hbegin : Naming (c.onMessageBegin.withTarget (m.urls.flatMap (pathOf parseUrl))
      (m.urls.flatMap (queryOf parseUrl))) [] [] :=
    (naming_messageBegin c).congr _ rfl rfl rfl rfl rfl rfl
  obtain ⟨c2, h2, hn2, hf2, ho2⟩ := hbegin.section parseUrl hd hf
  rw [List.nil_append] at hn2
  obtain ⟨hheaders, hn3⟩ := hn2.headersComplete m.method m.contentLength
  refine ⟨c2.onHeadersComplete m.method m.contentLength, ?_, hheaders, ?_, ?_⟩
  · exact ((Delivers.single rfl).append hurls).append h2 |>.append (.single rfl)
  · have hflag : c2.lastHeaderWasValue = true ↔ m.headers ≠ [] := by
      rw [hf2]
      cases m.headers <;> simp [withTarget, onMessageBegin]
    by_cases hm : m.headers = []
    · rw [if_pos hm]
      rwa [if_neg (fun ht => hflag.mp ht hm)] at hn3
    · rw [if_neg hm]
      rwa [if_pos (hflag.mpr hm)] at hn3
  · refine HeadersOnly.trans ?_ (c2.onHeadersComplete_frame m.method m.contentLength)
    unfold HeadersOnly at ho2 ⊢
    rw [ho2]
    rfl

/-! ## The whole message -/

/-- `c'` is `c` after all of `m` has been taken in. -/
structure Assembled (parseUrl : Bytes → Option UrlFields) (c : Connection State)
    (m : MessagePieces) (c' : Connection State) : Prop where
  tag : c'.requestIdHeaderTag = c.requestIdHeaderTag
  parser : c'.parser = c.parser
  request : c'.request = m.assembled parseUrl
  reply : c'.reply = c.reply.reset
  complete : c'.requestComplete = true
  keepAlive : c'.keepAlive = m.keepAlive
  waiting : c'.waitingForAsyncReply = c.waitingForAsyncReply

/-- A message that fits is taken in whole. -/
theorem message_delivers (c : Connection State) {m : MessagePieces}
    (hu : Accepted parseUrl m.urls) (hd : m.Delivered) (hf : m.Fits) :
    ∃ c', Delivers parseUrl c m.calls c' ∧ Assembled parseUrl c m c' := by
  obtain ⟨hdh, hdt⟩ := List.forall_mem_append.mp hd
  obtain ⟨hfh, hft⟩ := List.forall_mem_append.mp hf
  obtain ⟨c1, h1, hh1, hn1, ho1⟩ := head_delivers c hu hdh hfh
  have hbody := body_delivers parseUrl c1 m.body
  have hn2 := hn1.congr (c1.withBody m.body.flatten) rfl rfl rfl rfl rfl rfl
  obtain ⟨c3, h3, hn3, hf3, ho3⟩ := hn2.section parseUrl hdt hft
  have hrest : Delivers parseUrl c m.calls (c3.onMessageComplete m.keepAlive) :=
    ((h1.append hbody).append h3).append (.single rfl)
  refine ⟨_, hrest, ?_⟩
  have hheaders : c3.request.headers = m.recordedHeaders := by
    unfold MessagePieces.recordedHeaders
    by_cases ht : m.trailers = []
    · rw [ht, List.flatMap_nil] at h3
      have hc3 : c1.withBody m.body.flatten = c3 := congrArg Delivery.conn h3
      rw [if_pos ht, ← hh1, ← hc3]
      rfl
    · rw [if_neg ht]
      have hlast : c3.lastHeaderWasValue = true := by
        rw [hf3]
        cases hm : m.trailers with
        | nil => exact absurd hm ht
        | cons p ps => simp
      rw [hn3.headers_of_pending hlast, List.dropLast_append_of_ne_nil (by simpa using ht),
        List.map_dropLast]
  unfold HeadersOnly at ho1 ho3
  have hrequest : c3.request = m.assembled parseUrl := by
    rw [ho3, hheaders, ho1]
    rfl
  constructor
  · rw [ho3, ho1]; rfl
  · rw [ho3, ho1]; rfl
  · exact hrequest
  · rw [ho3, ho1]; rfl
  · rfl
  · rfl
  · rw [ho3, ho1]; rfl

/-- A header or trailer field that does not fit overruns an array. -/
theorem message_overflow (c : Connection State) {m : MessagePieces}
    (hu : Accepted parseUrl m.urls) (hd : m.Delivered) (hf : ¬ m.Fits) :
    (c.deliver parseUrl m.calls).stop = .fault .headerOverflow := by
  obtain ⟨hdh, hdt⟩ := List.forall_mem_append.mp hd
  by_cases hfh : ∀ p ∈ m.headers, p.Fits
  · have hft : ¬ ∀ p ∈ m.trailers, p.Fits :=
      fun hft => hf (List.forall_mem_append.mpr ⟨hfh, hft⟩)
    obtain ⟨c1, h1, -, hn1, -⟩ := head_delivers c hu hdh hfh
    have hbody := body_delivers parseUrl c1 m.body
    have hn2 := hn1.congr (c1.withBody m.body.flatten) rfl rfl rfl rfl rfl rfl
    refine stop_append_of_fault ?_
    rw [(h1.append hbody).deliver_append]
    exact hn2.section_overflow parseUrl hdt hft
  · have hurls := urls_delivers c.onMessageBegin hu
    have hbegin : Naming (c.onMessageBegin.withTarget (m.urls.flatMap (pathOf parseUrl))
        (m.urls.flatMap (queryOf parseUrl))) [] [] :=
      (naming_messageBegin c).congr _ rfl rfl rfl rfl rfl rfl
    refine stop_append_of_fault (stop_append_of_fault (stop_append_of_fault
      (stop_append_of_fault ?_)))
    rw [((Delivers.single rfl).append hurls).deliver_append]
    exact hbegin.section_overflow parseUrl hdh hfh

/-- A refused piece of the target ends the message before its headers. -/
theorem message_refused (c : Connection State) {m : MessagePieces}
    (hu : ¬ Accepted parseUrl m.urls) : (c.deliver parseUrl m.calls).stop = .refused := by
  have hurls : (c.deliver parseUrl ([.messageBegin] ++ m.urls.map .url)).stop = .refused := by
    rw [(Delivers.single rfl).deliver_append]
    exact urls_refused c.onMessageBegin hu
  have hne : (c.deliver parseUrl ([.messageBegin] ++ m.urls.map .url)).stop ≠ .finished := by
    rw [hurls]
    exact Stop.noConfusion
  have happ : m.calls = ([.messageBegin] ++ m.urls.map .url) ++
      (m.headers.flatMap HeaderPieces.calls ++ [.headersComplete m.method m.contentLength] ++
        m.body.map .body ++ m.trailers.flatMap HeaderPieces.calls ++
        [.messageComplete m.keepAlive]) := by
    simp [MessagePieces.calls, MessagePieces.headCalls]
  rw [happ, deliver_append_of_stop hne, hurls]

/-- No header array is overrun by a message exactly when its target is refused first or
all its header and trailer fields fit. -/
theorem no_overflow_iff (c : Connection State) {m : MessagePieces} (hd : m.Delivered) :
    (c.deliver parseUrl m.calls).stop ≠ .fault .headerOverflow ↔
      (Accepted parseUrl m.urls → m.Fits) := by
  by_cases hu : Accepted parseUrl m.urls
  · by_cases hf : m.Fits
    · obtain ⟨c', h, -⟩ := message_delivers c hu hd hf
      refine iff_of_true ?_ (fun _ => hf)
      rw [show (c.deliver parseUrl m.calls).stop = .finished from congrArg Delivery.stop h]
      exact Stop.noConfusion
    · exact iff_of_false (fun hne => hne (message_overflow c hu hd hf)) (fun hi => hf (hi hu))
  · refine iff_of_true ?_ (fun ha => absurd ha hu)
    rw [message_refused c hu]
    exact Stop.noConfusion

/-- A request for `/` with one header, whose value has `n` bytes. -/
def valueOfLength (n : Nat) : MessagePieces :=
  ⟨[ascii "/"], [⟨[ascii "a"], [List.replicate n 97]⟩], 1, 0, [], [], true⟩

theorem valueOfLength_delivered (n : Nat) : (valueOfLength n).Delivered := by
  intro p hp
  obtain rfl := List.mem_singleton.mp hp
  exact ⟨List.cons_ne_nil _ _, List.cons_ne_nil _ _⟩

theorem valueOfLength_sectionSize (n : Nat) : (valueOfLength n).sectionSize = n + 5 := by
  simp [MessagePieces.sectionSize, valueOfLength, HeaderPieces.header, ascii]
  omega

theorem valueOfLength_fits_iff (n : Nat) : (valueOfLength n).Fits ↔ n < maxHeaderSize := by
  simp [MessagePieces.Fits, valueOfLength, HeaderPieces.Fits, HeaderPieces.header, ascii,
    maxHeaderSize]

theorem no_overflow_iff_of_value :
    ((Connection.new [] .zero ()).deliver readRooted (valueOfLength 4096).calls).stop ≠
        .fault .headerOverflow ↔
      (Accepted readRooted (valueOfLength 4096).urls → (valueOfLength 4096).Fits) :=
  no_overflow_iff _ (valueOfLength_delivered 4096)

/-- The header section is far below the limit of the parser, and the array is overrun. -/
theorem value_of_4096_overflows :
    (valueOfLength 4096).sectionSize ≤ 80 * 1024 ∧
      ¬ ((Connection.new [] .zero ()).deliver readRooted (valueOfLength 4096).calls).stop ≠
        .fault .headerOverflow := by
  refine ⟨?_, fun hne => hne (message_overflow _ ?_ (valueOfLength_delivered 4096) ?_)⟩
  · rw [valueOfLength_sectionSize]
    decide
  · exact List.forall_mem_singleton.mpr rfl
  · rw [valueOfLength_fits_iff]
    decide

/-! ## What `get_header` finds -/

/-- The lower-case value of the first header called `n`, in any spelling. -/
def firstValue (hs : List Header) (n : Bytes) : Bytes :=
  match hs.find? (fun h => decide (lower n = lower h.name)) with
  | some h => lower h.value
  | none => []

theorem getHeader_lowered (r : Request) {hs : List Header} (h : r.headers = hs.map Header.lowered)
    (n : Bytes) : r.getHeader n = firstValue hs n := by
  have hfind : (hs.map Header.lowered).find? (fun i => iequals n i.name) =
      (hs.find? (fun h => decide (lower n = lower h.name))).map Header.lowered := by
    have hp : (fun i : Header => iequals n i.name) ∘ Header.lowered =
        fun h => decide (lower n = lower h.name) := funext (fun i => iequals_lower n i.name)
    rw [List.find?_map, hp]
  unfold Request.getHeader firstValue
  rw [h, hfind]
  cases hs.find? (fun h => decide (lower n = lower h.name)) <;> rfl

/-- However the header section is cut into callbacks, and whatever the connection held
before, exactly the headers of the message are recorded, in order and in lower case. -/
theorem headers_exact (c : Connection State) {m : MessagePieces} (hu : Accepted parseUrl m.urls)
    (hd : ∀ p ∈ m.headers, p.Delivered) (hz : ∀ p ∈ m.headers, p.header.NulFree)
    (hl : ∀ p ∈ m.headers, p.header.name.length ≤ 4095 ∧ p.header.value.length ≤ 4095) :
    ∃ c', Delivers parseUrl c m.headCalls c' ∧
      c'.request.headers = m.headers.map (fun p => p.header.lowered) ∧
      ∀ n, c'.request.getHeader n = firstValue (m.headers.map HeaderPieces.header) n := by
  have hf : ∀ p ∈ m.headers, p.Fits := by
    intro p hp
    exact ⟨Nat.lt_succ_of_le (hl p hp).1, Nat.lt_succ_of_le (hl p hp).2⟩
  obtain ⟨c', h, hh, -, -⟩ := head_delivers c hu hd hf
  have hstored : c'.request.headers = m.headers.map (fun p => p.header.lowered) := by
    rw [hh]
    exact List.map_congr_left (fun p hp => HeaderPieces.stored_of_nulFree (hz p hp))
  refine ⟨c', h, hstored, fun n => getHeader_lowered _ ?_ n⟩
  rw [hstored, List.map_map]
  rfl

theorem headers_exact_of_split :
    ∃ c', Delivers readRooted (Connection.new [] .zero ())
        (MessagePieces.headCalls ⟨[ascii "/"], [⟨[ascii "Ho", ascii "st"], [ascii "", ascii "A"]⟩],
          1, 0, [], [], true⟩) c' ∧
      c'.request.headers = [⟨ascii "host", ascii "a"⟩] ∧
      ∀ n, c'.request.getHeader n = firstValue [⟨ascii "Host", ascii "A"⟩] n :=
  headers_exact _ (by decide) (by decide) (by decide) (by decide)

end Connection

end CsiHttp.Server
