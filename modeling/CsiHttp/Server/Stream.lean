import CsiHttp.Lib.Framing
import CsiHttp.Server.MessageAssembly
import CsiHttp.Server.Parse

/-!
# Messages on the byte stream of a connection

A client sends messages one after the other, and the connection reads the stream in
portions. The parser makes the callbacks of every message whose bytes it has been given,
and those of a part of the next one. What the connection has taken in then depends on
whether `on_url` accepts the pieces of the targets and the headers fit.
-/
namespace CsiHttp.Server

open Lib Lib.Text Lib.Framing

/-- The pieces of the target `t` add up to what is read from the whole. -/
def AddsUp (parseUrl : Bytes → Option UrlFields) (t : Bytes) (ps : List Bytes) : Prop :=
  Accepted parseUrl ps ∧ ps.flatMap (pathOf parseUrl) = pathOf parseUrl t ∧
    ps.flatMap (queryOf parseUrl) = queryOf parseUrl t

/-- For `/path` and `/path?query` this is a matter of where the cuts fall. -/
def CutWell (parseUrl : Bytes → Option UrlFields) (t : Bytes) (ps : List Bytes) : Prop :=
  if Target t then SafelyCut ps else AddsUp parseUrl t ps

theorem Target.isRooted {t : Bytes} (h : Target t) : isRooted t := by
  obtain ⟨hhead, -⟩ := h
  cases t with
  | nil => cases hhead
  | cons b t =>
    obtain rfl := Option.some.inj hhead
    rfl

theorem ReadsTargets.cutWell_iff {parseUrl : Bytes → Option UrlFields} (h : ReadsTargets parseUrl)
    {t : Bytes} {ps : List Bytes} (hc : CutOf t ps) :
    CutWell parseUrl t ps ↔ AddsUp parseUrl t ps := by
  unfold CutWell
  by_cases ht : Target t
  · rw [if_pos ht]
    unfold AddsUp
    rw [h.pathOf_rooted ht.isRooted ht.2, h.queryOf_rooted ht.isRooted ht.2, ← hc.whole]
    constructor
    · exact h.whole_of_safelyCut (hc.printable ht)
    · rintro ⟨ha, hpath, hquery⟩
      exact h.safelyCut_of_whole (hc.printable ht) hc.nonempty ha hpath hquery
  · rw [if_neg ht]

/-- A message as its client sends it, and the pieces in which the parser delivers it. -/
structure Sent where
  wire : Bytes
  target : Bytes
  pieces : MessagePieces
  wire_ne_nil : wire ≠ []
  cut : CutOf target pieces.urls
  delivered : pieces.Delivered
  nulFree : ∀ p ∈ pieces.headers, p.header.NulFree
  /-- Only a chunked message has trailers, and a header says that it is chunked. -/
  chunked : pieces.trailers ≠ [] → pieces.headers ≠ []

namespace Sent

def size (m : Sent) : Nat := m.wire.length

def calls (m : Sent) : List Callback := m.pieces.calls

/-- What the handler of the message should be given. -/
def own (parseUrl : Bytes → Option UrlFields) (m : Sent) : Request.View where
  method := some m.pieces.method
  url := pathOf parseUrl m.target
  query := queryOf parseUrl m.target
  headers := m.pieces.headers.map (fun p => p.header.lowered)
  body := m.pieces.body.flatten

/-- No callback of the message is refused or overruns an array. -/
def Taken (parseUrl : Bytes → Option UrlFields) (m : Sent) : Prop :=
  Accepted parseUrl m.pieces.urls ∧ m.pieces.Fits

/-- The message is taken, and nothing is lost of it or added to it. -/
def Clean (parseUrl : Bytes → Option UrlFields) (m : Sent) : Prop :=
  CutWell parseUrl m.target m.pieces.urls ∧ m.pieces.Fits ∧ m.pieces.trailers = []

theorem size_pos (m : Sent) : 0 < m.size := List.length_pos_iff.mpr m.wire_ne_nil

theorem calls_ne_nil (m : Sent) : m.calls ≠ [] := m.pieces.calls_ne_nil

/-- Trailers always leave a trace among the headers. -/
theorem recordedHeaders_iff (m : Sent) :
    m.pieces.recordedHeaders = m.pieces.headers.map (fun p => p.header.lowered) ↔
      m.pieces.trailers = [] := by
  have hstored : m.pieces.headers.map HeaderPieces.stored =
      m.pieces.headers.map (fun p => p.header.lowered) :=
    List.map_congr_left fun p hp => HeaderPieces.stored_of_nulFree (m.nulFree p hp)
  unfold MessagePieces.recordedHeaders
  by_cases ht : m.pieces.trailers = []
  · rw [if_pos ht]
    exact iff_of_true hstored ht
  · rw [if_neg ht, if_neg (m.chunked ht)]
    refine iff_of_false (fun h => ?_) ht
    have hlen := congrArg List.length h
    simp only [List.length_append, List.length_map, List.length_singleton] at hlen
    omega

theorem assembled_own_iff {parseUrl : Bytes → Option UrlFields} (h : ReadsTargets parseUrl)
    {m : Sent} (ht : m.Taken parseUrl) :
    (m.pieces.assembled parseUrl).view = m.own parseUrl ↔ m.Clean parseUrl := by
  unfold Clean own MessagePieces.assembled Request.view
  rw [h.cutWell_iff m.cut, Request.View.mk.injEq]
  dsimp only
  rw [m.recordedHeaders_iff]
  unfold AddsUp
  constructor
  · rintro ⟨-, hpath, hquery, htrailers, -⟩
    exact ⟨⟨ht.1, hpath, hquery⟩, ht.2, htrailers⟩
  · rintro ⟨⟨-, hpath, hquery⟩, -, htrailers⟩
    exact ⟨rfl, hpath, hquery, htrailers, rfl⟩

theorem Clean.taken {parseUrl : Bytes → Option UrlFields} (h : ReadsTargets parseUrl) {m : Sent}
    (hc : m.Clean parseUrl) : m.Taken parseUrl :=
  ⟨((h.cutWell_iff m.cut).mp hc.1).1, hc.2.1⟩

end Sent

/-! ## Taking in messages -/

namespace Connection

variable {State : Type} {parseUrl : Bytes → Option UrlFields} {c c'' : Connection State}
variable {ms : List Sent} {part : List Callback}

theorem Delivers.split {cbs cbs' : List Callback} (h : Delivers parseUrl c (cbs ++ cbs') c'') :
    ∃ c', Delivers parseUrl c cbs c' ∧ Delivers parseUrl c' cbs' c'' := by
  by_cases hstop : (c.deliver parseUrl cbs).stop = .finished
  · have h' := delivers_of_finished hstop
    refine ⟨_, h', ?_⟩
    unfold Delivers at h
    rw [h'.deliver_append] at h
    obtain ⟨hconn, hmade, hfin⟩ := Delivery.mk.inj h
    have hrest := delivers_of_finished hfin
    rwa [hconn] at hrest
  · unfold Delivers at h
    rw [deliver_append_of_stop hstop] at h
    exact absurd (congrArg Delivery.stop h) hstop

theorem finished_iff_taken (c : Connection State) (m : Sent) :
    (c.deliver parseUrl m.calls).stop = .finished ↔ m.Taken parseUrl := by
  constructor
  · intro h
    have hu : Accepted parseUrl m.pieces.urls := by
      by_contra hu
      exact Stop.noConfusion ((message_refused c hu).symm.trans h)
    refine ⟨hu, ?_⟩
    by_contra hf
    exact Stop.noConfusion ((message_overflow c hu m.delivered hf).symm.trans h)
  · rintro ⟨hu, hf⟩
    obtain ⟨c', h, -⟩ := message_delivers c hu m.delivered hf
    exact congrArg Delivery.stop h

theorem messages_deliver (c : Connection State) (h : ∀ m ∈ ms, m.Taken parseUrl) :
    ∃ c', Delivers parseUrl c (ms.flatMap Sent.calls) c' := by
  induction ms generalizing c with
  | nil => exact ⟨c, .refl⟩
  | cons m ms ih =>
    obtain ⟨hm, hms⟩ := List.forall_mem_cons.mp h
    have h1 := delivers_of_finished ((finished_iff_taken c m).mpr hm)
    obtain ⟨c2, h2⟩ := ih (c.deliver parseUrl m.calls).conn hms
    exact ⟨c2, h1.append h2⟩

/-- When not all callbacks are made, one of the messages or the one that follows them is
not taken. -/
theorem untaken_of_stop (h : (c.deliver parseUrl (ms.flatMap Sent.calls ++ part)).stop ≠ .finished) :
    (∃ m ∈ ms, ¬ m.Taken parseUrl) ∨
      ∀ (m : Sent) (more : List Callback), m.calls = part ++ more → ¬ m.Taken parseUrl := by
  by_cases hms : ∀ m ∈ ms, m.Taken parseUrl
  · right
    intro m more hm ht
    obtain ⟨c', hc'⟩ := messages_deliver c hms
    have hfin := (finished_iff_taken c' m).mpr ht
    rw [hm] at hfin
    obtain ⟨c2, h2, -⟩ := Delivers.split (delivers_of_finished hfin)
    rw [hc'.deliver_append, h2] at h
    exact h rfl
  · left
    push Not at hms
    exact hms

theorem callback_setParser (parseUrl : Bytes → Option UrlFields) (c : Connection State) (p : Option State) (cb : Callback) :
    ({ c with parser := p } : Connection State).callback parseUrl cb =
      (c.callback parseUrl cb).map (fun q => ({ q.1 with parser := p }, q.2)) := by
  have hcommit : ({ c with parser := p } : Connection State).commitPending =
      { c.commitPending with parser := p } := by
    unfold commitPending
    split <;> rfl
  cases cb with
  | url piece =>
    simp only [callback, onUrl]
    split <;> rfl
  | headerField piece =>
    simp only [callback, onHeaderField, hcommit]
    split <;> rfl
  | headerValue piece =>
    simp only [callback, onHeaderValue]
    split <;> rfl
  | headersComplete method contentLength =>
    simp only [callback, onHeadersComplete, hcommit]
    rfl
  | messageBegin | body _ | messageComplete _ => rfl

/-- The callbacks neither use nor change the parser. -/
theorem deliver_setParser (c : Connection State) (p : Option State) (cbs : List Callback) :
    ({ c with parser := p } : Connection State).deliver parseUrl cbs =
      { c.deliver parseUrl cbs with conn := { (c.deliver parseUrl cbs).conn with parser := p } } := by
  induction cbs generalizing c with
  | nil => rfl
  | cons cb cbs ih =>
    have hcb := callback_setParser parseUrl c p cb
    cases h : c.callback parseUrl cb with
    | error f =>
      rw [h] at hcb
      rw [deliver_cons_error h, deliver_cons_error hcb]
    | ok q =>
      obtain ⟨c1, r⟩ := q
      rw [h] at hcb
      by_cases hr : r = 0
      · subst hr
        rw [deliver_cons_ok h, deliver_cons_ok hcb, ih c1]
      · rw [deliver_cons_refused h hr, deliver_cons_refused hcb hr]

end Connection

/-! ## What the parser makes of the stream -/

/-- One more buffer for a parser that must parse all of it. -/
def HttpParser.feedOne (P : HttpParser) (q : List Callback × P.State) (buf : Bytes) :
    Option (List Callback × P.State) :=
  let x := P.execute q.2 buf
  if x.nparsed = buf.length then x.after.map (fun st => (q.1 ++ x.calls, st)) else none

/-- The callbacks for a sequence of buffers, and the state of the parser after them. -/
def HttpParser.feed (P : HttpParser) (bufs : List Bytes) : Option (List Callback × P.State) :=
  bufs.foldlM P.feedOne ([], P.init)

theorem feed_concat_iff {P : HttpParser} {st : P.State} {bufs : List Bytes} {buf : Bytes}
    {cbs : List Callback} : P.feed (bufs ++ [buf]) = some (cbs, st) ↔
      ∃ cbs' st', P.feed bufs = some (cbs', st') ∧ (P.execute st' buf).nparsed = buf.length ∧
        (P.execute st' buf).after = some st ∧ cbs = cbs' ++ (P.execute st' buf).calls := by
  have hone : ∀ q, P.feedOne q buf = some (cbs, st) ↔
      (P.execute q.2 buf).nparsed = buf.length ∧ (P.execute q.2 buf).after = some st ∧
        cbs = q.1 ++ (P.execute q.2 buf).calls := by
    intro q
    unfold HttpParser.feedOne
    by_cases hn : (P.execute q.2 buf).nparsed = buf.length
    · simp only [hn, if_true, true_and, Option.map_eq_some_iff, Prod.mk.injEq]
      constructor
      · rintro ⟨st', h, rfl, rfl⟩
        exact ⟨h, rfl⟩
      · rintro ⟨h, rfl⟩
        exact ⟨st, h, rfl, rfl⟩
    · simp [hn]
  unfold HttpParser.feed
  rw [List.foldlM_append]
  simp only [List.foldlM_cons, List.foldlM_nil, Option.bind_eq_bind, Option.bind_eq_some_iff]
  constructor
  · rintro ⟨⟨cbs', st'⟩, h, q, hq, hr⟩
    obtain rfl : q = (cbs, st) := Option.some.inj hr
    exact ⟨cbs', st', h, (hone _).mp hq⟩
  · rintro ⟨cbs', st', h, hq⟩
    exact ⟨(cbs', st'), h, (cbs, st), (hone _).mpr hq, rfl⟩

/-- The callbacks made when the first `n` bytes of the stream have been parsed: those of
every message received in whole, and `part` of those of the next one. -/
structure Progress (sent : List Sent) (n : Nat) (cbs part : List Callback) : Prop where
  calls : cbs = (whole Sent.size sent n).flatMap Sent.calls ++ part
  begun : part = [] ↔ total Sent.size (whole Sent.size sent n) = n
  next : part ≠ [] → ∃ m l more, rest Sent.size sent n = m :: l ∧ m.calls = part ++ more ∧ more ≠ []

/-- Before the first byte. -/
theorem progress_zero (sent : List Sent) : Progress sent 0 [] [] := by
  have hwhole : whole Sent.size sent 0 = [] := whole_zero fun m _ => m.size_pos
  refine ⟨?_, ?_, fun hne => absurd rfl hne⟩
  · rw [hwhole]
    rfl
  · rw [hwhole]
    exact iff_of_true rfl rfl

/-- After the last byte. -/
theorem progress_total (sent : List Sent) :
    Progress sent (total Sent.size sent) (sent.flatMap Sent.calls) [] := by
  have hwhole := (whole_eq_of_split Sent.size (List.append_nil sent).symm
    (Nat.le_refl _) (fun _ _ hn => by cases hn)).1
  refine ⟨?_, ?_, fun hne => absurd rfl hne⟩
  · rw [hwhole, List.append_nil]
  · rw [hwhole]
    exact iff_of_true rfl rfl

/-- The portions are read from the stream that carries the messages, and the parser
delivers the messages as announced. -/
structure Carries (P : HttpParser) (sent : List Sent) (portions : List Bytes) : Prop where
  stream : portions.flatten <+: sent.flatMap Sent.wire
  parsed : ∀ a, a <+: portions → ∃ cbs st part,
    P.feed a = some (cbs, st) ∧ Progress sent a.flatten.length cbs part

theorem Carries.of_prefix {P : HttpParser} {sent : List Sent} {ps ps' : List Bytes}
    (h : Carries P sent ps') (hp : ps <+: ps') : Carries P sent ps :=
  ⟨(List.IsPrefix.flatten hp).trans h.stream, fun a ha => h.parsed a (ha.trans hp)⟩

/-- Every message received in whole ends with a read and is clean. -/
def WellRead (parseUrl : Bytes → Option UrlFields) (sent : List Sent) (portions : List Bytes) :
    Prop :=
  Aligned Sent.size sent (portions.map List.length) ∧
    ∀ m ∈ whole Sent.size sent portions.flatten.length, m.Clean parseUrl

/-! ## One more portion -/

section Portion

variable {parseUrl : Bytes → Option UrlFields} {sent : List Sent} {portions : List Bytes}
variable {bytes : Bytes} {n : Nat} {cbs cbs' part part' : List Callback}

theorem length_concat (portions : List Bytes) (bytes : Bytes) :
    (portions ++ [bytes]).flatten.length = portions.flatten.length + bytes.length := by
  rw [List.flatten_append, List.length_append, List.flatten_singleton]

/-- A portion does no harm if it completes no message, or a single clean one with its
last byte. -/
theorem wellRead_concat (hb : bytes ≠ []) :
    WellRead parseUrl sent (portions ++ [bytes]) ↔ WellRead parseUrl sent portions ∧
      (completed Sent.size sent portions.flatten.length bytes.length = [] ∨
        ∃ m, completed Sent.size sent portions.flatten.length bytes.length = [m] ∧
          m.Clean parseUrl ∧
          total Sent.size (whole Sent.size sent portions.flatten.length) + m.size =
            portions.flatten.length + bytes.length) := by
  have hsum : (portions.map List.length).sum = portions.flatten.length :=
    List.length_flatten.symm
  have hx : 0 < bytes.length := List.length_pos_iff.mpr hb
  unfold WellRead
  rw [List.map_append, List.map_singleton, aligned_concat (fun m _ => m.size_pos) hx, hsum,
    length_concat, (whole_add Sent.size sent portions.flatten.length bytes.length).1]
  constructor
  · rintro ⟨⟨ha, hnew⟩, hclean⟩
    obtain ⟨hold, hclean⟩ := List.forall_mem_append.mp hclean
    refine ⟨⟨ha, hold⟩, ?_⟩
    rcases hnew with hnew | ⟨m, hnew, hend⟩
    · exact Or.inl hnew
    · refine Or.inr ⟨m, hnew, hclean m ?_, hend⟩
      rw [hnew]
      exact List.mem_singleton_self m
  · rintro ⟨⟨ha, hold⟩, hnew⟩
    rcases hnew with hnew | ⟨m, hnew, hm, hend⟩
    · rw [hnew, List.append_nil]
      exact ⟨⟨ha, Or.inl rfl⟩, hold⟩
    · rw [hnew]
      exact ⟨⟨ha, Or.inr ⟨m, rfl, hend⟩⟩,
        List.forall_mem_append.mpr ⟨hold, List.forall_mem_singleton.mpr hm⟩⟩

/-- The requests passed on, compared with the messages received in whole: never more of
them, and the same ones exactly if all has been read well. -/
structure Tally (parseUrl : Bytes → Option UrlFields) (sent : List Sent) (portions : List Bytes)
    (views : List Request.View) : Prop where
  count : views.length ≤ (whole Sent.size sent portions.flatten.length).length
  exact : views = (whole Sent.size sent portions.flatten.length).map (Sent.own parseUrl) ↔
    WellRead parseUrl sent portions

theorem tally_nil : Tally parseUrl sent [] [] := by
  have hwhole : whole Sent.size sent 0 = [] := whole_zero fun m _ => m.size_pos
  refine ⟨Nat.zero_le _, iff_of_true ?_ ⟨?_, ?_⟩⟩
  · change [] = (whole Sent.size sent 0).map _
    rw [hwhole]
    rfl
  · intro a r ha
    change a ++ [r] <+: whole Sent.size sent 0 at ha
    rw [hwhole, List.prefix_nil] at ha
    exact absurd ha (by simp)
  · change ∀ m ∈ whole Sent.size sent 0, _
    rw [hwhole]
    exact List.forall_mem_nil _

/-- A portion on which no request is passed on. -/
theorem Tally.skip {views : List Request.View} (h : Tally parseUrl sent portions views)
    (hb : bytes ≠ [])
    (hbad : completed Sent.size sent portions.flatten.length bytes.length ≠ [] →
      ¬ WellRead parseUrl sent (portions ++ [bytes])) :
    Tally parseUrl sent (portions ++ [bytes]) views := by
  have hadd := (whole_add Sent.size sent portions.flatten.length bytes.length).1
  have hcount := h.count
  refine ⟨?_, ?_⟩
  · rw [length_concat, hadd, List.length_append]
    omega
  · rw [length_concat, hadd]
    by_cases hnew : completed Sent.size sent portions.flatten.length bytes.length = []
    · rw [wellRead_concat hb, hnew, List.append_nil, h.exact]
      exact ⟨fun hw => ⟨hw, Or.inl rfl⟩, And.left⟩
    · refine iff_of_false (fun he => ?_) (hbad hnew)
      have hlen := congrArg List.length he
      rw [List.length_map, List.length_append] at hlen
      have hpos := List.length_pos_iff.mpr hnew
      omega

/-- A portion that ends with a message, and on which one request is passed on. -/
theorem Tally.take {views : List Request.View} {v : Request.View}
    (h : Tally parseUrl sent portions views) (hb : bytes ≠ [])
    (hnew : completed Sent.size sent portions.flatten.length bytes.length ≠ [])
    (hend : total Sent.size (whole Sent.size sent (portions ++ [bytes]).flatten.length) =
      (portions ++ [bytes]).flatten.length)
    (hv : ∀ m, completed Sent.size sent portions.flatten.length bytes.length = [m] →
      (v = m.own parseUrl ↔ m.Clean parseUrl)) :
    Tally parseUrl sent (portions ++ [bytes]) (views ++ [v]) := by
  have hadd := (whole_add Sent.size sent portions.flatten.length bytes.length).1
  have hcount := h.count
  have hpos := List.length_pos_iff.mpr hnew
  rw [length_concat, hadd, total_append] at hend
  refine ⟨?_, ?_⟩
  · rw [length_concat, hadd, List.length_append, List.length_append, List.length_singleton]
    omega
  · rw [length_concat, hadd, wellRead_concat hb]
    constructor
    · intro he
      have hlen := congrArg List.length he
      rw [List.length_map, List.length_append, List.length_append, List.length_singleton] at hlen
      obtain ⟨m, hm⟩ := List.length_eq_one_iff.mp
        (show (completed Sent.size sent portions.flatten.length bytes.length).length = 1 by omega)
      rw [hm, List.map_append, List.map_singleton] at he
      obtain ⟨hold, hlast⟩ := List.append_inj' he rfl
      rw [hm, total_singleton] at hend
      refine ⟨h.exact.mp hold, Or.inr ⟨m, hm, ?_, hend⟩⟩
      exact (hv m hm).mp (List.singleton_inj.mp hlast)
    · rintro ⟨hold, hone⟩
      rcases hone with hone | ⟨m, hm, hclean, -⟩
      · exact absurd hone hnew
      · rw [hm, List.map_append, List.map_singleton, ← h.exact.mpr hold, (hv m hm).mpr hclean]

/-! ### Its callbacks -/

/-- The callbacks of a portion finish the message that has begun, and begin the next one. -/
theorem Progress.concat {k : Nat} {calls : List Callback} (h : Progress sent n cbs part)
    (h' : Progress sent (n + k) (cbs ++ calls) part') :
    part ++ calls = (completed Sent.size sent n k).flatMap Sent.calls ++ part' := by
  have hcalls := h'.calls
  rw [h.calls, (whole_add Sent.size sent n k).1, List.flatMap_append, List.append_assoc,
    List.append_assoc] at hcalls
  exact List.append_cancel_left hcalls

theorem Progress.begun_of_none {k : Nat} (h' : Progress sent (n + k) cbs' part') (hk : 0 < k)
    (hnew : completed Sent.size sent n k = []) : part' ≠ [] := by
  intro hp
  have hend := h'.begun.mp hp
  rw [(whole_add Sent.size sent n k).1, hnew, List.append_nil] at hend
  have := total_whole_le Sent.size sent n
  omega

theorem Progress.follow (h' : Progress sent n cbs' part') (ms : List Sent) :
    ∃ ph, Phase.idle.follow (ms.flatMap Sent.calls ++ part') = some ph ∧
      (ph = .idle ↔ part' = []) := by
  have hms : Phase.idle.follow (ms.flatMap Sent.calls) = some .idle := by
    have h := follow_messages (ms.map Sent.pieces)
    rwa [List.flatMap_map] at h
  by_cases hp : part' = []
  · refine ⟨.idle, ?_, iff_of_true rfl hp⟩
    rwa [hp, List.append_nil]
  · obtain ⟨m, l, more, -, hcalls, hmore⟩ := h'.next hp
    obtain ⟨ph, hpart, hne⟩ := MessagePieces.follow_begun hcalls hp hmore
    exact ⟨ph, Phase.follow_append_iff.mpr ⟨.idle, hms, hpart⟩, iff_of_false hne hp⟩

/-- A message that is not taken in whole spoils the portion. -/
theorem not_wellRead_of_part (hb : bytes ≠ [])
    (h' : Progress sent (portions ++ [bytes]).flatten.length cbs' part') (hp : part' ≠ [])
    (hnew : completed Sent.size sent portions.flatten.length bytes.length ≠ []) :
    ¬ WellRead parseUrl sent (portions ++ [bytes]) := by
  rw [wellRead_concat hb]
  rintro ⟨-, hone | ⟨m, hm, -, hend⟩⟩
  · exact hnew hone
  · refine hp (h'.begun.mpr ?_)
    rw [length_concat, (whole_add Sent.size sent portions.flatten.length bytes.length).1, hm, total_append,
      total_singleton]
    exact hend

end Portion

end CsiHttp.Server
