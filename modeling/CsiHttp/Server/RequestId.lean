import CsiHttp.Lib.Runs
import CsiHttp.Server.Frame
import CsiHttp.Server.Parse

/-!
# The header that identifies a request

A connection is constructed with the name of the header, and asks its request for the id
without giving that name: `request_id` then falls back on its default. The id is cached
where it is asked for first, in `handle_read`, and every later call finds it there. So the
configured header counts exactly when the default one leads to the same id.
-/
namespace CsiHttp.Server

open Lib Lib.Text Lib.Runs

/-- What Boost.Uuid promises: the empty text is no uuid, and every uuid has a text. -/
structure Uuids.Lawful (U : Uuids) : Prop where
  empty : U.stringGenerator [] = none
  text : ∀ u, U.toString u ≠ []

namespace Request

/-- The request has a header named `N`, in whatever case, with the non-empty value `v`. -/
def Carries (r : Request) (N v : Bytes) : Prop :=
  v ≠ [] ∧ ∃ h ∈ r.headers, iequals N h.name = true ∧ h.value = v

/-- Nobody has asked for the id yet. -/
def Unasked (r : Request) : Prop := r.requestId = [] ∧ r.requestUuid = 0

/-- The value found under the default name can serve as the id; a connection that is `secure`
takes uuids only. -/
def Usable (U : Uuids) (secure : Bool) (r : Request) : Prop :=
  r.getHeader defaultIdHeader ≠ [] ∧
    (secure = true → (U.stringGenerator (r.getHeader defaultIdHeader)).isSome)

variable {U : Uuids} {r : Request} {k : Nat}

theorem reset_unasked (r : Request) : r.reset.Unasked := ⟨rfl, rfl⟩

/-- An id that has been given stays. -/
theorem fillRequestId_named (h : r.requestId ≠ []) (idHeader : Bytes) :
    r.fillRequestId U idHeader k = (r, k) := if_pos h

theorem fillRequestId_unasked (h : r.Unasked) (idHeader : Bytes) :
    (r.fillRequestId U idHeader k).1.headers = r.headers ∧
      (r.getHeader idHeader ≠ [] → (r.fillRequestId U idHeader k).1.requestId =
        r.getHeader idHeader ∧ (r.fillRequestId U idHeader k).2 = k) ∧
      (r.getHeader idHeader = [] → (r.fillRequestId U idHeader k).1.requestId =
        U.toString (U.random k) ∧ (r.fillRequestId U idHeader k).2 = k + 1) := by
  unfold fillRequestId
  rw [if_neg (fun hne => hne h.1)]
  dsimp only
  by_cases hid : r.getHeader idHeader = []
  · rw [if_neg (fun hne => hne hid)]
    exact ⟨rfl, fun hne => absurd hid hne, fun _ => ⟨rfl, rfl⟩⟩
  · rw [if_pos hid]
    refine ⟨?_, fun _ => ?_, fun he => absurd he hid⟩
    · split <;> rfl
    · split <;> exact ⟨rfl, rfl⟩

theorem fillRequestUuid_unasked (h : r.Unasked) (hU : U.Lawful) (idHeader : Bytes) :
    (r.fillRequestUuid U idHeader k).1.headers = r.headers ∧
      ((U.stringGenerator (r.getHeader idHeader)).isSome →
        (r.fillRequestUuid U idHeader k).1.requestId = r.getHeader idHeader ∧
          (r.fillRequestUuid U idHeader k).2 = k) ∧
      (U.stringGenerator (r.getHeader idHeader) = none →
        (r.fillRequestUuid U idHeader k).1.requestId = U.toString (U.random k) ∧
          (r.fillRequestUuid U idHeader k).2 = k + 1) := by
  unfold fillRequestUuid
  rw [if_neg (fun hne => hne h.2)]
  dsimp only
  by_cases hid : r.getHeader idHeader = []
  · rw [if_neg (fun hne => hne hid), hid, hU.empty]
    exact ⟨rfl, fun hs => Bool.noConfusion hs, fun _ => ⟨rfl, rfl⟩⟩
  · rw [if_pos hid]
    cases hg : U.stringGenerator (r.getHeader idHeader) with
    | none => exact ⟨rfl, fun hs => Bool.noConfusion hs, fun _ => ⟨rfl, rfl⟩⟩
    | some u => exact ⟨rfl, fun _ => ⟨rfl, rfl⟩, fun hn => by cases hn⟩

end Request

namespace Connection

/-- The callbacks leave the id alone, or clear it. -/
theorem callback_unasked {State : Type} {parseUrl : Bytes → Option UrlFields}
    {c c' : Connection State} {cb : Callback} {r : Int} (h : c.callback parseUrl cb = .ok (c', r))
    (hu : c.request.Unasked) : c'.request.Unasked := by
  have hcommit : c.commitPending.request.Unasked := by
    unfold commitPending
    split <;> exact hu
  cases cb with
  | url piece =>
    simp only [callback, onUrl] at h
    split at h <;> cases h <;> exact hu
  | headerField piece =>
    simp only [callback, onHeaderField] at h
    split at h <;> cases h
    exact hcommit
  | headerValue piece =>
    simp only [callback, onHeaderValue] at h
    split at h <;> cases h
    exact hu
  | headersComplete method contentLength =>
    cases h
    exact hcommit
  | messageBegin =>
    cases h
    exact Request.reset_unasked _
  | body piece | messageComplete k =>
    cases h
    exact hu

theorem httpParse_unasked {P : HttpParser} {c : Connection P.State} (h : c.request.Unasked)
    (buf : Bytes) : (c.httpParse P buf).conn.request.Unasked :=
  httpParse_invariant (Q := fun d => d.request.Unasked) (fun _ _ _ _ => callback_unasked)
    (fun _ _ h => h) h buf

end Connection

/-! ## What keeps the id -/

/-- An observation that shows the request under this id, if it shows an id at all. -/
def Obs.About (id : Bytes) : Obs → Prop
  | .requestIdLogged id' => id' = id
  | .dispatched r => r.requestId = id
  | _ => True

section Sessions

variable {State : Type} {s t u : Session State} {E : Externals} {A : AsyncReply State}

/-- The request stays as it is, and is shown under the id it has. -/
structure Keeps (s t : Session State) : Prop where
  request : t.conn.request = s.conn.request
  drawn : t.drawn = s.drawn
  log : ∃ l, t.log = s.log ++ l ∧ ∀ o ∈ l, o.About s.conn.request.requestId

theorem Keeps.of_same (hr : t.conn.request = s.conn.request) (hd : t.drawn = s.drawn)
    (hl : t.log = s.log) : Keeps s t :=
  ⟨hr, hd, [], by rw [hl, List.append_nil], List.forall_mem_nil _⟩

theorem Keeps.refl (s : Session State) : Keeps s s := .of_same rfl rfl rfl

theorem Keeps.trans (h : Keeps s t) (h' : Keeps t u) : Keeps s u := by
  obtain ⟨l, hl, ha⟩ := h.log
  obtain ⟨l', hl', ha'⟩ := h'.log
  refine ⟨h'.request.trans h.request, h'.drawn.trans h.drawn, l ++ l', ?_, ?_⟩
  · rw [hl', hl, List.append_assoc]
  · rw [h.request] at ha'
    exact List.forall_mem_append.mpr ⟨ha, ha'⟩

theorem keeps_note (s : Session State) {o : Obs} (ho : o.About s.conn.request.requestId) :
    Keeps s (s.note o) :=
  ⟨rfl, rfl, [o], rfl, List.forall_mem_singleton.mpr ho⟩

theorem keeps_arm (s : Session State) (ms : Nat) (w : Waiter) : Keeps s (s.arm ms w) :=
  .of_same rfl rfl rfl

theorem keeps_cancelTimer (s : Session State) : Keeps s s.cancelTimer := .of_same rfl rfl rfl

theorem keeps_setWaiting (s : Session State) (b : Bool) : Keeps s (s.setWaiting b) :=
  .of_same rfl rfl rfl

/-- A call of `request_id` when the id has been given. -/
theorem keeps_requestId (h : s.conn.request.requestId ≠ []) (idHeader : Bytes) :
    Keeps s (s.requestId E idHeader) := by
  unfold Session.requestId
  rw [Request.fillRequestId_named h]
  exact .of_same rfl rfl rfl

/-- A request that has its id keeps it while its reply is sent. -/
theorem keeps_kept : Session.KeptBySending E
    (fun s t : Session State => s.conn.request.requestId ≠ [] → Keeps s t) where
  refl s _ := .refl s
  trans := by
    intro s t u h h' hid
    have hst := h hid
    refine hst.trans (h' ?_)
    rwa [hst.request]
  crash _ _ _ := .of_same rfl rfl rfl
  setReply _ _ _ := .of_same rfl rfl rfl
  requestId _ idHeader h := keeps_requestId h idHeader
  idLogged s _ := keeps_note s rfl
  methodLogged s _ := keeps_note s trivial
  replying s _ := keeps_note s trivial
  setWaiting s b _ := keeps_setWaiting s b
  replied _ _ _ _ := ⟨rfl, rfl, [_], rfl, List.forall_mem_singleton.mpr trivial⟩

theorem keeps_logRequestId (h : s.conn.request.requestId ≠ []) : Keeps s (s.logRequestId E) :=
  keeps_kept.logRequestId s h

theorem keeps_sendReply (h : s.conn.request.requestId ≠ []) : Keeps s (s.sendReply E) :=
  keeps_kept.sendReply s h

structure KeepsAsync (A : AsyncReply State) : Prop where
  wait : ∀ s, Keeps s (A.waitForAsyncReply s)
  notify : ∀ s, s.conn.request.requestId ≠ [] → Keeps s (A.notifyAsyncReplyDone s)

/-- The handler asks for the id, if it does, through `request_id`. -/
def AsksForId (op : HandlerOp) : Prop := ∀ idHeader, op ≠ .requestUuid idHeader

theorem keeps_handlerOp (hA : KeepsAsync A) (h : s.conn.request.requestId ≠ []) {op : HandlerOp}
    (hop : AsksForId op) : Keeps s (s.handlerOp E A op) :=
  keeps_kept.handlerOp (fun s _ => hA.wait s) hA.notify s
    (fun idHeader huuid => absurd huuid (hop idHeader)) h

/-- From the log line of `handle_read` on, the handler and the reply keep the id. -/
theorem keeps_dispatch (hA : KeepsAsync A) {prepare : Session State → Session State}
    (h : ((prepare s).logRequest E).conn.request.requestId ≠ []) {ops : List HandlerOp}
    (hops : ∀ op ∈ ops, AsksForId op) :
    Keeps ((prepare s).logRequest E) (s.dispatch E A prepare ops) := by
  refine keeps_kept.handled (fun s _ => hA.wait s) hA.notify _ ?_ ?_ ?_ h
  · exact fun s idHeader hmem => absurd rfl (hops _ hmem idHeader)
  · exact fun s _ => ⟨rfl, rfl, [_], rfl, List.forall_mem_singleton.mpr rfl⟩
  · exact fun s _ => keeps_arm s _ _

/-! ## Where the id comes from -/

/-- Between `s` and `t` the request has been given its id, as the code does it. -/
structure Names (U : Uuids) (secure : Bool) (s t : Session State) : Prop where
  headers : t.conn.request.headers = s.conn.request.headers
  taken : s.conn.request.Usable U secure →
    t.conn.request.requestId = s.conn.request.getHeader Request.defaultIdHeader ∧ t.drawn = s.drawn
  drawn : ¬ s.conn.request.Usable U secure →
    t.conn.request.requestId = U.toString (U.random s.drawn) ∧ t.drawn = s.drawn + 1

theorem Names.named {U : Uuids} {secure : Bool} (h : Names U secure s t) (hU : U.Lawful) :
    t.conn.request.requestId ≠ [] := by
  by_cases hu : s.conn.request.Usable U secure
  · rw [(h.taken hu).1]
    exact hu.1
  · rw [(h.drawn hu).1]
    exact hU.text _

theorem Names.keeps {U : Uuids} {secure : Bool} (h : Names U secure s t) (hk : Keeps t u) :
    Names U secure s u := by
  refine ⟨?_, ?_, ?_⟩
  · rw [hk.request]
    exact h.headers
  · rw [hk.request, hk.drawn]
    exact h.taken
  · rw [hk.request, hk.drawn]
    exact h.drawn

theorem names_logRequest (h : s.conn.request.Unasked) : Names E.uuids false s (s.logRequest E) := by
  obtain ⟨hheaders, htaken, hdrawn⟩ :=
    Request.fillRequestId_unasked (U := E.uuids) (k := s.drawn) h Request.defaultIdHeader
  refine ⟨hheaders, fun hu => htaken hu.1, fun hu => hdrawn ?_⟩
  by_contra hne
  exact hu ⟨hne, fun hs => Bool.noConfusion hs⟩

theorem names_requestUuid (hU : E.uuids.Lawful) (h : s.conn.request.Unasked) :
    Names E.uuids true s ((s.requestUuid E Request.defaultIdHeader).logRequest E) := by
  obtain ⟨hheaders, htaken, hdrawn⟩ :=
    Request.fillRequestUuid_unasked (U := E.uuids) (k := s.drawn) h hU Request.defaultIdHeader
  have hfirst : Names E.uuids true s (s.requestUuid E Request.defaultIdHeader) := by
    refine ⟨hheaders, fun hu => htaken (hu.2 rfl), fun hu => hdrawn ?_⟩
    by_contra hg
    have hsome := Option.ne_none_iff_isSome.mp hg
    refine hu ⟨fun he => ?_, fun _ => hsome⟩
    rw [he, hU.empty] at hsome
    cases hsome
  exact hfirst.keeps (keeps_kept.logRequest _ (hfirst.named hU))

/-! ## The law of one request -/

/-- The request under way in `t`, which was named in a step from `s`, goes under the value of its
header `N`, and a uuid has been drawn for it only if it has none (or, on a `secure` connection,
none that is a uuid). -/
structure Identified (U : Uuids) (secure : Bool) (N : Bytes) (s t : Session State) : Prop where
  shown : ∃ l, t.log = s.log ++ l ∧ ∀ o ∈ l, o.About t.conn.request.requestId
  given : ∀ v, t.conn.request.Carries N v → t.conn.request.requestId = v ∨
    (secure = true ∧ U.stringGenerator v = none ∧
      t.conn.request.requestId = U.toString (U.random s.drawn) ∧ t.drawn = s.drawn + 1)
  drawn : t.drawn ≠ s.drawn → ∀ v, t.conn.request.Carries N v →
    secure = true ∧ U.stringGenerator v = none

theorem Identified.keeps {U : Uuids} {secure : Bool} {N : Bytes} (h : Identified U secure N s t)
    (hk : Keeps t u) : Identified U secure N s u := by
  obtain ⟨l, hl, ha⟩ := h.shown
  obtain ⟨l', hl', ha'⟩ := hk.log
  refine ⟨⟨l ++ l', ?_, ?_⟩, ?_, ?_⟩
  · rw [hl', hl, List.append_assoc]
  · rw [hk.request]
    exact List.forall_mem_append.mpr ⟨ha, ha'⟩
  · rw [hk.request, hk.drawn]
    exact h.given
  · rw [hk.request, hk.drawn]
    exact h.drawn

/-- Every non-empty value of a header `N` is the one found under the default name; on a `secure`
connection it is enough that neither is a uuid. -/
def DefaultServes (U : Uuids) (secure : Bool) (N : Bytes) (r : Request) : Prop :=
  ∀ v, r.Carries N v → v = r.getHeader Request.defaultIdHeader ∨
    (secure = true ∧ U.stringGenerator v = none ∧
      U.stringGenerator (r.getHeader Request.defaultIdHeader) = none)

theorem carries_of_headers {r r' : Request} (h : r'.headers = r.headers) (N v : Bytes) :
    r'.Carries N v ↔ r.Carries N v := by
  unfold Request.Carries
  rw [h]

/-- The law holds where the request has just been named exactly if the default header serves. -/
theorem identified_iff {U : Uuids} (hU : U.Lawful) {secure : Bool} (N : Bytes)
    (h : Names U secure s t) {u : Session State} (hlog : ∃ l, t.log = u.log ++ l ∧
      ∀ o ∈ l, o.About t.conn.request.requestId) (hd : s.drawn = u.drawn) :
    Identified U secure N u t ↔ DefaultServes U secure N s.conn.request := by
  have hcarries := carries_of_headers h.headers N
  by_cases hu : s.conn.request.Usable U secure
  · obtain ⟨hid, hdrawn⟩ := h.taken hu
    constructor
    · intro hi v hv
      rcases hi.given v ((hcarries v).mpr hv) with he | ⟨-, -, -, hone⟩
      · exact Or.inl (he.symm.trans hid)
      · omega
    · intro hc
      refine ⟨hlog, fun v hv => ?_, fun hne => absurd (hdrawn.trans hd) hne⟩
      rcases hc v ((hcarries v).mp hv) with he | ⟨hs, -, hnone⟩
      · exact Or.inl (hid.trans he.symm)
      · have hsome := hu.2 hs
        rw [hnone] at hsome
        cases hsome
  · obtain ⟨hid, hdrawn⟩ := h.drawn hu
    rw [hd] at hid hdrawn
    have hunusable : s.conn.request.getHeader Request.defaultIdHeader ≠ [] →
        secure = true ∧
          U.stringGenerator (s.conn.request.getHeader Request.defaultIdHeader) = none := by
      intro hne
      by_contra hcon
      refine hu ⟨hne, fun hs => ?_⟩
      by_contra hg
      exact hcon ⟨hs, Option.not_isSome_iff_eq_none.mp hg⟩
    constructor
    · intro hi v hv
      obtain ⟨hs, hg⟩ := hi.drawn (by omega) v ((hcarries v).mpr hv)
      refine Or.inr ⟨hs, hg, ?_⟩
      by_cases hw : s.conn.request.getHeader Request.defaultIdHeader = []
      · rw [hw]
        exact hU.empty
      · exact (hunusable hw).2
    · intro hc
      have hnone : ∀ v, t.conn.request.Carries N v → secure = true ∧ U.stringGenerator v = none := by
        intro v hv
        rcases hc v ((hcarries v).mp hv) with rfl | ⟨hs, hg, -⟩
        · exact hunusable ((hcarries _).mp hv).1
        · exact ⟨hs, hg⟩
      refine ⟨hlog, fun v hv => ?_, fun _ => hnone⟩
      obtain ⟨hs, hg⟩ := hnone v hv
      exact Or.inr ⟨hs, hg, hid, hdrawn⟩

end Sessions

/-! ## The connections -/

section Reads

variable {E : Externals} {s t : Session E.parser.State}

/-- The request as a read leaves it to the connection. -/
def received (E : Externals) (s : Session E.parser.State) (bytes : Bytes) : Request :=
  (s.conn.httpParse E.parser bytes).conn.request

/-- The read completes a request. -/
def Completes (E : Externals) (s : Session E.parser.State) (bytes : Bytes) : Prop :=
  (s.conn.httpParse E.parser bytes).result = .ok bytes.length ∧
    (s.conn.httpParse E.parser bytes).conn.requestComplete = true

/-- What happens while a request is being answered: neither is more received nor has the reply
been written, and the handler asks for the id through `request_id`. -/
def InExchange : Event → Prop
  | .read .success _ _ => False
  | .write _ .success => False
  | .handler op => AsksForId op
  | _ => True

/-- A step that completes a request and lets a handler answer it, and what follows as long as
it is being answered. -/
structure Answers (E : Externals)
    (step : Session E.parser.State → Event → Option (Session E.parser.State))
    (s : Session E.parser.State) (bytes : Bytes) (ops : List HandlerOp) (t : Session E.parser.State)
    (es : List Event) : Prop where
  completes : Completes E s bytes
  asks : ∀ op ∈ ops, AsksForId op
  read : step s (.read .success bytes ops) = some t
  exchange : ∀ ev ∈ es, InExchange ev

/-- A read that completes a request, with the law that its first state has to obey. -/
theorem dispatch_identified_iff (hU : E.uuids.Lawful) {A : AsyncReply E.parser.State}
    (hA : KeepsAsync A) {prepare : Session E.parser.State → Session E.parser.State} {secure : Bool}
    (hp : ∀ s : Session E.parser.State, s.conn.request.Unasked →
      Names E.uuids secure s ((prepare s).logRequest E) ∧ ∃ id m,
        ((prepare s).logRequest E).log = s.log ++ [.requestIdLogged id, .methodLogged m] ∧
          ((prepare s).logRequest E).conn.request.requestId = id)
    (N : Bytes) {bytes : Bytes} {ops : List HandlerOp} (hops : ∀ op ∈ ops, AsksForId op)
    (hc : Completes E s bytes) (hr : (received E s bytes).Unasked) :
    (s.readSucceeded E A prepare bytes ops).conn.request.requestId ≠ [] ∧
      (Identified E.uuids secure N s (s.readSucceeded E A prepare bytes ops) ↔
        DefaultServes E.uuids secure N (received E s bytes)) := by
  obtain ⟨hnames, id, m, hlog, hid⟩ := hp ((s.parse E bytes).note (.parsed bytes.length bytes.length)) hr
  have hnamed := hnames.named hU
  have hkeep := keeps_dispatch (E := E) (s := (s.parse E bytes).note (.parsed bytes.length bytes.length))
    hA hnamed hops
  rw [readSucceeded_completed hc.1 hc.2]
  refine ⟨hkeep.request ▸ hnamed, identified_iff hU N (hnames.keeps hkeep) ?_ rfl⟩
  obtain ⟨l, hl, ha⟩ := hkeep.log
  refine ⟨(s.conn.httpParse E.parser bytes).made.map .callback ++ [.parsed bytes.length bytes.length] ++
    [.requestIdLogged id, .methodLogged m] ++ l, ?_, ?_⟩
  · rw [hl, hlog]
    change s.log ++ _ ++ _ ++ _ ++ _ = _
    simp only [List.append_assoc]
  · rw [congrArg Request.requestId hkeep.request]
    refine List.forall_mem_append.mpr ⟨List.forall_mem_append.mpr ⟨List.forall_mem_append.mpr
      ⟨?_, ?_⟩, ?_⟩, ha⟩
    · rw [List.forall_mem_map]
      exact fun _ _ => trivial
    · exact List.forall_mem_singleton.mpr trivial
    · exact List.forall_mem_cons.mpr ⟨hid.symm, List.forall_mem_singleton.mpr trivial⟩

end Reads

/-- What the completion handlers of a transport do to a request that has its id. -/
structure Transport.Keeping {State : Type} (T : Transport State) : Prop where
  async : KeepsAsync T.async
  handshake : ∀ e s, Keeps s (T.handleHandshake e s)
  read : ∀ e bytes ops s, e ≠ .success → Keeps s (T.handleRead e bytes ops s)
  write : ∀ e s, e ≠ .success → Keeps s (T.handleWrite e s)
  wait : ∀ w e s, s.conn.request.requestId ≠ [] → Keeps s (T.handleWait w e s)
  asyncReplyDone : ∀ s, s.conn.request.requestId ≠ [] → Keeps s (T.handleAsyncReplyDone s)

theorem keeps_step {State : Type} {E : Externals} {T : Transport State} (hT : T.Keeping)
    {s t : Session State} {ev : Event} (h : s.conn.request.requestId ≠ []) (hev : InExchange ev)
    (hs : s.step E T ev = some t) : Keeps s t := by
  cases (Session.stepped_of_step hs).2 with
  | handshake e hh =>
    exact .trans (t := { s with handshakes := s.handshakes - 1 }) (.of_same rfl rfl rfl)
      (hT.handshake e _)
  | read e bytes ops hr hb =>
    have he : e ≠ .success := by
      rintro rfl
      exact hev
    exact .trans (t := { s with reads := s.reads - 1 }) (.of_same rfl rfl rfl)
      (hT.read e bytes ops _ he)
  | write i e hi =>
    have he : e ≠ .success := by
      rintro rfl
      exact hev
    exact .trans (t := { s with writes := s.writes.eraseIdx i }) (.of_same rfl rfl rfl)
      (hT.write e _ he)
  | expire hp => exact .of_same rfl rfl rfl
  | timer i c timer hdeq =>
    exact .trans (t := { s with timer := timer }) (.of_same rfl rfl rfl)
      (hT.wait c.wait c.code _ h)
  | asyncReplyDone hp =>
    exact .trans (t := { s with posted := s.posted - 1 }) (.of_same rfl rfl rfl)
      (hT.asyncReplyDone _ h)
  | handler op hl => exact keeps_handlerOp hT.async h hev

/-- Once the request has its id, the law that holds then holds throughout the exchange. -/
theorem throughout_identified_iff {State : Type} {E : Externals} {T : Transport State}
    (hT : T.Keeping) {secure : Bool} {N : Bytes} {s t : Session State}
    (h : t.conn.request.requestId ≠ []) {es : List Event} (hes : ∀ ev ∈ es, InExchange ev) :
    Throughout (Session.step E T) (Identified E.uuids secure N s) t es ↔
      Identified E.uuids secure N s t := by
  refine ⟨Throughout.head, fun hi => ?_⟩
  have hstep : ∀ u ev v, Keeps t u → InExchange ev → Session.step E T u ev = some v →
      Keeps t v := by
    intro u ev v hu hev hv
    refine hu.trans (keeps_step hT ?_ hev hv)
    rw [hu.request]
    exact h
  refine throughout_of_step (fun u hu => hi.keeps hu) hstep (.refl t) ?_
  clear hi
  generalize t = u
  induction es generalizing u with
  | nil => trivial
  | cons ev es ih =>
    obtain ⟨hev, hes⟩ := List.forall_mem_cons.mp hes
    exact ⟨hev, fun v _ => ih hes v⟩

end CsiHttp.Server
