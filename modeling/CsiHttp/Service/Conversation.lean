import CsiHttp.Server.ReplyFraming
import CsiHttp.Server.ReplyWire
import CsiHttp.Service.Serving

/-!
# What a client reads

The log of a connection says which answers have become due, which replies have been given and
which buffers have been written. The monitors of the log tie the three lists together, and the
client gets the answers back from the bytes.
-/
namespace CsiHttp.Service

open Lib Lib.Text Lib.Runs Server

/-! ## Three lists -/

/-- The answer that becomes due with an observation. -/
def Obs.demand (expected : Request → Option Answer) : Obs → Option Answer
  | .dispatched r => expected r
  | .parsed received nparsed => if received = nparsed then none else some .badRequest
  | _ => none

def Obs.reply : Obs → Option Reply
  | .replying r => some r
  | _ => none

def Obs.output : Obs → Option Write
  | .replied r buffers => some ⟨r, buffers⟩
  | _ => none

/-- The answers that have become due, in their order. -/
def demands (expected : Request → Option Answer) (log : List Obs) : List Answer :=
  log.filterMap (Obs.demand expected)

def replies (log : List Obs) : List Reply := log.filterMap Obs.reply

def outputs (log : List Obs) : List Write := log.filterMap Obs.output

/-- The bytes that a connection has sent. -/
def wire (log : List Obs) : Bytes := (outputs log).flatMap (fun w => w.buffers.flatten)

theorem filterMap_concat {α β : Type} (f : α → Option β) (l : List α) (a : α) :
    (l ++ [a]).filterMap f = l.filterMap f ++ (f a).toList := by
  rw [List.filterMap_append]
  cases h : f a <;> simp [h]

section Monitors

variable {expected : Request → Option Answer} {log : List Obs}

/-- Every reply fits the answer that it was given for. -/
theorem replies_fit (h : (answering expected).Accepts none log) : ∃ as,
    demands expected log = as ++ ((answering expected).after none log).toList ∧
      List.Forall₂ Answer.Fits as (replies log) := by
  induction log using List.reverseRecOn with
  | nil => exact ⟨[], rfl, .nil⟩
  | append_singleton log o ih =>
    rw [Monitor.accepts_append] at h
    obtain ⟨hlog, hok, -⟩ := h
    obtain ⟨as, hdue, hfits⟩ := ih hlog
    unfold demands at hdue ⊢
    unfold replies at hfits ⊢
    rw [filterMap_concat, filterMap_concat, hdue, Monitor.after_append]
    have hasked : (answering expected).after none log = none → Obs.reply o = none →
        (answering expected).next none o = Obs.demand expected o → ∃ as', as ++
          ((answering expected).after none log).toList ++ (Obs.demand expected o).toList =
            as' ++ ((answering expected).next ((answering expected).after none log) o).toList ∧
              List.Forall₂ Answer.Fits as' (log.filterMap Obs.reply ++ (Obs.reply o).toList) := by
      intro hnone hreply hnext
      simp only [hnone, hreply, hnext, Option.toList_none, List.append_nil]
      exact ⟨as, rfl, hfits⟩
    cases o with
    | dispatched r => exact hasked hok rfl rfl
    | parsed m n => exact hasked hok rfl rfl
    | replying r =>
      obtain ⟨a, howed, hr⟩ := hok
      rw [howed]
      exact ⟨as ++ [a], rfl, List.rel_append hfits (.cons hr .nil)⟩
    | callback _ | requestIdLogged _ | methodLogged _ | deferred | notified _ | replied _ _
    | readStarted | timedOut _ =>
      refine ⟨as, List.append_nil _, ?_⟩
      exact (List.append_nil (log.filterMap Obs.reply)).symm ▸ hfits

/-- The reply on which `send_reply` is at work. -/
def underWay : Exchange → List Reply
  | .sending r => [r]
  | .idle | .dispatched | .waiting | .notified _ | .replied => []

/-- Unless one is being sent, every reply has been written. -/
theorem replies_written (h : exchanges.Accepts .idle log)
    (hsent : ∀ r, exchanges.after .idle log ≠ .sending r) :
    List.Forall₂ (fun r w => r.SentAs w.reply w.buffers) (replies log) (outputs log) := by
  have hall : ∃ rs, replies log = rs ++ underWay (exchanges.after .idle log) ∧
      List.Forall₂ (fun r w => r.SentAs w.reply w.buffers) rs (outputs log) := by
    clear hsent
    induction log using List.reverseRecOn with
    | nil => exact ⟨[], rfl, .nil⟩
    | append_singleton log o ih =>
      rw [Monitor.accepts_append] at h
      obtain ⟨hlog, hok, -⟩ := h
      obtain ⟨rs, hreplies, hwritten⟩ := ih hlog
      unfold replies at hreplies ⊢
      unfold outputs at hwritten ⊢
      rw [filterMap_concat, filterMap_concat, hreplies, Monitor.after_append]
      -- nothing is under way, before or after
      have hnone : underWay (exchanges.after .idle log) = [] →
          underWay (exchanges.next (exchanges.after .idle log) o) = [] → Obs.reply o = none →
            Obs.output o = none → ∃ rs', rs ++ underWay (exchanges.after .idle log) ++
              (Obs.reply o).toList =
                rs' ++ underWay (exchanges.next (exchanges.after .idle log) o) ∧
                  List.Forall₂ (fun r w => r.SentAs w.reply w.buffers) rs'
                    (log.filterMap Obs.output ++ (Obs.output o).toList) := by
        intro hbefore hafter hreply houtput
        simp only [hbefore, hafter, hreply, houtput, Option.toList_none, List.append_nil]
        exact ⟨rs, rfl, hwritten⟩
      cases o with
      | dispatched r =>
        have hq : exchanges.after .idle log = .idle := hok
        exact hnone (by rw [hq]; rfl) rfl rfl rfl
      | deferred =>
        have hq : exchanges.after .idle log = .dispatched := hok
        exact hnone (by rw [hq]; rfl) rfl rfl rfl
      | notified r =>
        have hq : exchanges.after .idle log = .waiting := hok
        exact hnone (by rw [hq]; rfl) rfl rfl rfl
      | readStarted =>
        obtain hq | hq : exchanges.after .idle log = .idle ∨ exchanges.after .idle log = .replied := hok
        · exact hnone (by rw [hq]; rfl) rfl rfl rfl
        · exact hnone (by rw [hq]; rfl) rfl rfl rfl
      | replying r =>
        have hbefore : underWay (exchanges.after .idle log) = [] := by
          obtain hq | hq | hq := hok <;> rw [hq] <;> rfl
        rw [hbefore, List.append_nil]
        refine ⟨rs, rfl, ?_⟩
        exact (List.append_nil (log.filterMap Obs.output)).symm ▸ hwritten
      | replied sent buffers =>
        obtain ⟨r, hq, hsent⟩ := hok
        rw [hq]
        refine ⟨rs ++ [r], ?_, List.rel_append hwritten (.cons hsent .nil)⟩
        exact (List.append_nil _).trans (List.append_nil _).symm
      | callback _ | parsed _ _ | requestIdLogged _ | methodLogged _ | timedOut _ =>
        refine ⟨rs, List.append_nil _, ?_⟩
        exact (List.append_nil (log.filterMap Obs.output)).symm ▸ hwritten
  obtain ⟨rs, hreplies, hwritten⟩ := hall
  have hidle : underWay (exchanges.after .idle log) = [] := by
    cases hx : exchanges.after .idle log with
    | sending r => exact absurd hx (hsent r)
    | idle | dispatched | waiting | notified _ | replied => rfl
  rw [hreplies, hidle, List.append_nil]
  exact hwritten

end Monitors

/-! ## The bytes of an answer -/

namespace Answer

/-- A client can read the answer: its status has a body, and the length of the content can be
written. -/
structure Sendable (a : Answer) : Prop where
  status_mem : a.status ∈ statusTable
  status_body : a.status ≠ .noContent ∧ a.status ≠ .notModified
  content_lt : a.content.length < 2147483648

theorem sendable_notFound : notFound.Sendable := ⟨by decide, by decide, by decide⟩

theorem sendable_badRequest : badRequest.Sendable := ⟨by decide, by decide, by decide⟩

/-- The reply with the answer, as a draft; `send_reply` may add a header. -/
def draft (a : Answer) (h : a.Sendable) (added : List Header)
    (hadded : ∀ h ∈ added, NameOk h.name ∧ ValueOk h.value) : Draft where
  pieces := a.pieces
  status := a.status
  contentType := Reply.textHtml
  added := added
  content_lt := h.content_lt
  status_mem := h.status_mem
  status_body := h.status_body
  contentType_ok := by decide
  added_ok := hadded

/-- What the client reads is the answer. -/
def ReadAs (a : Answer) (m : Wire.Message) : Prop := m.status = a.status.code ∧ m.body = a.content

theorem headers_draft {a : Answer} (h : a.Sendable) {added : List Header}
    (hadded : ∀ h ∈ added, NameOk h.name ∧ ValueOk h.value) :
    (a.draft h added hadded).headers = Reply.ownHeaders a.content Reply.textHtml ++ added := by
  unfold Draft.headers Reply.ownHeaders
  rw [toInt32_of_lt h.content_lt]
  by_cases hc : a.content = []
  · have hd : (a.draft h added hadded).content = [] := hc
    rw [if_pos hd, if_pos hc, hd, hc]
    rfl
  · have hd : (a.draft h added hadded).content ≠ [] := hc
    rw [if_neg hd, if_neg hc]
    rfl

theorem flatten_toBuffers {r sent : Reply} {content : Bytes} {buffers : List Bytes}
    (h : r.txBuffer = some content) (hr : r.toBuffers = .ok (sent, buffers)) :
    buffers.flatten = r.head ++ content := by
  obtain ⟨sent', buffers', hr', -, hflat⟩ := Reply.toBuffers_holding h
  obtain ⟨-, rfl⟩ := Prod.mk.inj (Except.ok.inj (hr.symm.trans hr'))
  exact hflat

/-- The buffers of a reply that fits an answer are a message. -/
theorem written_of_fits {a : Answer} (h : a.Sendable) {r sent : Reply} {buffers : List Bytes}
    (hfits : a.Fits r) (hsent : r.SentAs sent buffers) :
    ∃ d : Draft, buffers.flatten = d.message.write (Draft.firstLine d.status) ∧ a.ReadAs d.message := by
  obtain ⟨hstatus, hcontent, hheaders⟩ := hfits
  have hbytes : ∀ (added : List Header) (hadded : ∀ h ∈ added, NameOk h.name ∧ ValueOk h.value)
      (r : Reply), r.status = a.status → r.txBuffer = some a.content →
        r.headers = Reply.ownHeaders a.content Reply.textHtml ++ added →
          r.toBuffers = .ok (sent, buffers) → ∃ d : Draft,
            buffers.flatten = d.message.write (Draft.firstLine d.status) ∧ a.ReadAs d.message := by
    intro added hadded r hstatus hcontent hheaders hr
    refine ⟨a.draft h added hadded, ?_, rfl, rfl⟩
    obtain ⟨sent', buffers', hd, hwritten⟩ := (a.draft h added hadded).toBuffers_eq
    have hhead : r.head =
        (⟨a.status, (a.draft h added hadded).headers, some a.content, none⟩ : Reply).head := by
      unfold Reply.head
      rw [hstatus, hheaders, headers_draft]
    rw [flatten_toBuffers hcontent hr, hhead, ← hwritten]
    exact (flatten_toBuffers rfl hd).symm
  rcases hsent with hsent | hsent
  · exact hbytes [] (List.forall_mem_nil _) r hstatus hcontent
      (hheaders.trans (List.append_nil _).symm) hsent
  · refine hbytes [Session.connectionClose] ?_ (r.add Session.connectionClose) hstatus hcontent ?_ hsent
    · exact List.forall_mem_singleton.mpr (by decide)
    · exact congrArg (· ++ [Session.connectionClose]) hheaders

end Answer

/-- A client reads the answers for which replies have been given. -/
theorem wire_reads {log : List Obs} {as : List Answer} (has : ∀ a ∈ as, a.Sendable)
    (hfits : List.Forall₂ Answer.Fits as (replies log))
    (hwritten : List.Forall₂ (fun r w => r.SentAs w.reply w.buffers) (replies log) (outputs log)) :
    ∃ ms, Wire.readMessages (wire log) = some ms ∧ List.Forall₂ Answer.ReadAs as ms := by
  unfold wire
  have hdrafts : ∃ ds : List Draft, (outputs log).flatMap (fun w => w.buffers.flatten) =
      ds.flatMap (fun d => d.message.write (Draft.firstLine d.status)) ∧
        List.Forall₂ (fun a d => a.ReadAs (Draft.message d)) as ds := by
    generalize replies log = rs at hfits hwritten
    generalize outputs log = ws at hwritten
    induction hfits generalizing ws with
    | nil =>
      cases hwritten
      exact ⟨[], rfl, .nil⟩
    | cons hfit hfits ih =>
      cases hwritten with
      | cons hsent hwritten =>
        obtain ⟨ha, has⟩ := List.forall_mem_cons.mp has
        obtain ⟨d, hd, hread⟩ := Answer.written_of_fits ha hfit hsent
        obtain ⟨ds, hds, hreads⟩ := ih has _ hwritten
        refine ⟨d :: ds, ?_, .cons hread hreads⟩
        rw [List.flatMap_cons, List.flatMap_cons, hd, hds]
  obtain ⟨ds, hds, hreads⟩ := hdrafts
  refine ⟨ds.map Draft.message, ?_, List.forall₂_map_right_iff.mpr hreads⟩
  have hall : ∀ p ∈ ds.map (fun d => (d.message, Draft.firstLine d.status)), p.1.Written p.2 := by
    rw [List.forall_mem_map]
    exact fun d _ => d.written
  have hread := Wire.readMessages_write hall
  rw [List.flatMap_map, List.map_map] at hread
  rw [hds]
  exact hread

/-! ## Every connection -/

section Desks

variable {E : Externals} {patterns : List Bytes} {plan : Request → Plan} {d : Desk E.parser.State}

theorem sendable_of_demand {log : List Obs}
    (hplan : ∀ r ∈ requests log, ∀ a, (plan r).answer = some a → a.Sendable) {o : Obs} (ho : o ∈ log)
    {a : Answer} (ha : Obs.demand (expected patterns plan) o = some a) : a.Sendable := by
  cases o with
  | dispatched r =>
    have hr : expected patterns plan r = some a := ha
    unfold expected at hr
    split at hr
    · exact hplan r (List.mem_filterMap.mpr ⟨_, ho, rfl⟩) a hr
    · obtain rfl := Option.some.inj hr
      exact Answer.sendable_notFound
  | parsed m n =>
    obtain ⟨-, hbad⟩ := Option.ite_none_left_eq_some.mp ha
    obtain rfl := Option.some.inj hbad
    exact Answer.sendable_badRequest
  | callback _ | requestIdLogged _ | methodLogged _ | deferred | notified _ | replying _
  | replied _ _ | readStarted | timedOut _ => cases ha

/-- What a connection has sent, and what it still owes. -/
theorem Tended.reads {i : Nat} {s : Session E.parser.State} {handles : Nat}
    (h : Tended (expected patterns plan) (d.jobsOf i) s handles) (hf : s.fault = none)
    (hplan : ∀ r ∈ requests s.log, ∀ a, (plan r).answer = some a → a.Sendable) : ∃ as ms owed,
      Wire.readMessages (wire s.log) = some ms ∧ List.Forall₂ Answer.ReadAs as ms ∧
        demands (expected patterns plan) s.log = as ++ owed.toList ∧ d.Due i s owed := by
  obtain ⟨as, hdemands, hfits⟩ := replies_fit h.served.accepts
  have hsent : ∀ r, exchanges.after .idle s.log ≠ .sending r := by
    intro r hr
    have howes := h.served.owes
    have hx : s.exchange = .sending r := hr
    rw [hx] at howes
    exact howes
  have hwritten := replies_written h.settled.staged.accepts hsent
  have has : ∀ a ∈ as, a.Sendable := by
    intro a ha
    have hmem : a ∈ demands (expected patterns plan) s.log := by
      rw [hdemands]
      exact List.mem_append_left _ ha
    obtain ⟨o, hlog, ho⟩ := List.mem_filterMap.mp hmem
    exact sendable_of_demand hplan hlog ho
  obtain ⟨ms, hms, hreads⟩ := wire_reads has hfits hwritten
  exact ⟨as, ms, _, hms, hreads, hdemands, h.due hf⟩

/-- If all its answers can be sent, the bytes that a connection has sent are, for its client, the
answers to what the connection has taken in, in that order and with no byte left over. At most the
last answer is missing. -/
theorem answers_read_back (E : Externals) (tag : Bytes) (junk : Uninitialised)
    (regs : List (Bytes × UInt64)) (plan : Request → Plan) {es : List Desk.Event}
    {u : Desk E.parser.State}
    (h : runs (Desk.step (http E) (regs.map Prod.fst) plan) (Desk.start (http E) tag junk regs) es =
      some u) (hrun : u.system.stopped = none) {i : Nat} {x : Slot E.parser.State}
    (hx : u.system.connections[i]? = some x)
    (hplan : ∀ r ∈ requests x.session.log, ∀ a, (plan r).answer = some a → a.Sendable) :
    ∃ as ms owed,
      Wire.readMessages (wire x.session.log) = some ms ∧ List.Forall₂ Answer.ReadAs as ms ∧
        demands (expected (regs.map Prod.fst) plan) x.session.log = as ++ owed.toList ∧
          u.Due i x.session owed := by
  have hserving := serving_runs E tag junk regs plan h
  obtain ⟨past, hapart⟩ := hserving.apart
  exact (hserving.tended hrun i x hx).reads (hapart.unfaulted hrun i x hx) hplan

end Desks

theorem greet_sendable (rs : List Request) :
    ∀ r ∈ rs, ∀ a, (greet r).answer = some a → a.Sendable := by
  intro r _ a ha
  obtain rfl := Option.some.inj ha
  exact ⟨by decide, by decide, by decide⟩

theorem answers_read_back_deferredGets : ∃ u x as ms owed,
    runs (Desk.step (http getServer) [ascii "/"] greet)
      (Desk.start (http getServer) [] .zero [(ascii "/", 0)]) deferredGets = some u ∧
    u.system.connections[0]? = some x ∧
      Wire.readMessages (wire x.session.log) = some ms ∧ List.Forall₂ Answer.ReadAs as ms ∧
        demands (expected [ascii "/"] greet) x.session.log = as ++ owed.toList ∧
          u.Due 0 x.session owed := by
  have hrun : ∃ u x, runs (Desk.step (http getServer) [ascii "/"] greet)
      (Desk.start (http getServer) [] .zero [(ascii "/", 0)]) deferredGets = some u ∧
        u.system.stopped = none ∧ u.system.connections[0]? = some x := ⟨_, _, rfl, rfl, rfl⟩
  obtain ⟨u, x, hu, hrunning, hx⟩ := hrun
  obtain ⟨as, ms, owed, hreads⟩ := answers_read_back getServer [] .zero [(ascii "/", 0)] greet hu
    hrunning hx (greet_sendable _)
  exact ⟨u, x, as, ms, owed, hu, hx, hreads⟩

end CsiHttp.Service
