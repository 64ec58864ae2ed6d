import CsiHttp.Client.Watching
import CsiHttp.Server.RequestBody

/-!
# The body of a request on its way

libcurl takes the body in buffers of its own choosing, through a callback that copies byte by
byte until the buffer is full or the stream is at its end. The parser of the server cuts the
same bytes anew.
-/
namespace CsiHttp.Client

open Lib Lib.Text Lib.Runs

/-- The loop of `read_callback_avro_stream` with room for `k` more bytes: what is in the buffer
in the end, and what the stream has left. -/
def copyLoop : Nat → Bytes → Bytes → Bytes × Bytes
  | 0, unread, written => (written, unread)
  | _ + 1, [], written => (written, [])
  | k + 1, b :: unread, written => copyLoop k unread (written ++ [b])

/-- `read_callback_avro_stream`; it returns the length of what it has written. -/
def readCallback (size nmemb : Nat) (unread : Bytes) : Bytes × Bytes :=
  copyLoop (size * nmemb) unread []

/-- One call after the other, each with a buffer of `nmemb` items of `size` bytes. -/
def reads : List (Nat × Nat) → Bytes → List Bytes × Bytes
  | [], unread => ([], unread)
  | (size, nmemb) :: caps, unread =>
    let call := readCallback size nmemb unread
    (call.1 :: (reads caps call.2).1, (reads caps call.2).2)

/-- `call_context::tx_content_length`. -/
def CallContext.txContentLength (x : CallContext) : Nat := x.txBuffer.length

theorem copyLoop_eq (k : Nat) (unread written : Bytes) :
    copyLoop k unread written = (written ++ unread.take k, unread.drop k) := by
  induction k generalizing unread written with
  | zero => rw [copyLoop, List.take_zero, List.append_nil, List.drop_zero]
  | succ k ih =>
    cases unread with
    | nil => rw [copyLoop, List.take_nil, List.append_nil, List.drop_nil]
    | cons b unread =>
      rw [copyLoop, ih, List.take_succ_cons, List.drop_succ_cons, List.append_assoc,
        List.singleton_append]

/-- A call takes what fits, from the front of what is left. -/
theorem readCallback_eq (size nmemb : Nat) (unread : Bytes) :
    readCallback size nmemb unread = (unread.take (size * nmemb), unread.drop (size * nmemb)) :=
  (copyLoop_eq _ unread []).trans rfl

theorem reads_append (caps caps' : List (Nat × Nat)) (unread : Bytes) :
    reads (caps ++ caps') unread =
      ((reads caps unread).1 ++ (reads caps' (reads caps unread).2).1,
        (reads caps' (reads caps unread).2).2) := by
  induction caps generalizing unread with
  | nil => rfl
  | cons cap caps ih =>
    obtain ⟨size, nmemb⟩ := cap
    rw [List.cons_append, reads, ih, reads]
    rfl

/-- What the calls have taken and what is left are the body. -/
theorem reads_flatten (caps : List (Nat × Nat)) (unread : Bytes) :
    (reads caps unread).1.flatten ++ (reads caps unread).2 = unread := by
  induction caps generalizing unread with
  | nil => rfl
  | cons cap caps ih =>
    obtain ⟨size, nmemb⟩ := cap
    rw [reads, List.flatten_cons, List.append_assoc, ih, readCallback_eq]
    exact List.take_append_drop _ _

theorem reads_remaining (caps : List (Nat × Nat)) (unread : Bytes) :
    (reads caps unread).2.length = unread.length - (reads caps unread).1.flatten.length := by
  have hlength := congrArg List.length (reads_flatten caps unread)
  rw [List.length_append] at hlength
  omega

/-- Every call returns the smaller of the size of its buffer and of what remains. -/
theorem readCallback_length (caps : List (Nat × Nat)) (size nmemb : Nat) (body : Bytes) :
    (readCallback size nmemb (reads caps body).2).1.length
      = min (size * nmemb) (body.length - (reads caps body).1.flatten.length) := by
  rw [readCallback_eq, List.length_take, reads_remaining]

/-- A call with room in its buffer returns 0 only at the end of the body. -/
theorem reads_done {caps : List (Nat × Nat)} {size nmemb : Nat} {body : Bytes}
    (hroom : 1 ≤ size * nmemb)
    (hzero : (readCallback size nmemb (reads caps body).2).1.length = 0) :
    (reads caps body).1.flatten = body := by
  have hnil : (reads caps body).2 = [] := by
    rw [readCallback_eq, List.length_take] at hzero
    apply List.eq_nil_of_length_eq_zero
    omega
  have hall := reads_flatten caps body
  rwa [hnil, List.append_nil] at hall

/-! ## The client -/

/-- The buffer that libcurl passes to the callback of the request `h`, if it calls it. -/
def CurlAct.capacity (h : Nat) : CurlAct → Option (Nat × Nat)
  | .read h' n => if h' = h then some (1, n) else none
  | .opensocket _ _ _ | .closesocket _ | .sockCb _ _ _ _ | .multiTimer _ | .response _ _
  | .header _ _ | .write _ _ | .finish _ => none

def Event.acts : Event → List CurlAct
  | .timer _ as | .run _ _ as => as
  | .performAsync _ | .ready _ | .expire => []

/-- The buffers for the request `h` in what libcurl does. -/
def capacities (h : Nat) (as : List CurlAct) : List (Nat × Nat) := as.filterMap (CurlAct.capacity h)

namespace HttpClient

variable {c d e : HttpClient} {h : Nat} {caps caps' : List (Nat × Nat)}

/-- Between `c` and `d` the body of `h` is read into these buffers, and not changed. -/
structure Uploads (h : Nat) (caps : List (Nat × Nat)) (c d : HttpClient) : Prop where
  txBuffer : (d.contexts h).txBuffer = (c.contexts h).txBuffer
  txUnread : (d.contexts h).txUnread = (reads caps (c.contexts h).txUnread).2

theorem Uploads.trans (hcd : Uploads h caps c d) (hde : Uploads h caps' d e) :
    Uploads h (caps ++ caps') c e where
  txBuffer := hde.txBuffer.trans hcd.txBuffer
  txUnread := by rw [hde.txUnread, hcd.txUnread, reads_append]

theorem Uploads.of_contexts (hx : d.contexts h = c.contexts h) : Uploads h [] c d :=
  ⟨by rw [hx], by rw [hx]; rfl⟩

theorem uploads_updateContext (c : HttpClient) (h' : Nat) {f : CallContext → CallContext}
    (hbuffer : ∀ x, (f x).txBuffer = x.txBuffer) (hunread : ∀ x, (f x).txUnread = x.txUnread) :
    Uploads h [] c (c.updateContext h' f) := by
  by_cases hh : h = h'
  · subst hh
    have hx := updateContext_self c h f
    exact ⟨by rw [hx, hbuffer], by rw [hx, hunread]; rfl⟩
  · exact .of_contexts (Function.update_of_ne hh _ _)

theorem uploads_performAsync (c : HttpClient) (h' : Nat) :
    Uploads h [] c (c.performAsync h') := by
  have hcontext := uploads_updateContext (h := h) c h'
    (f := fun x => { x with hasCallback := true }) (fun _ => rfl) (fun _ => rfl)
  exact hcontext.trans (.of_contexts rfl)

theorem uploads_removal (h' : Nat) : KeptByRemoval h' (Uploads h []) where
  refl _ := .of_contexts rfl
  trans := .trans
  performAsync := uploads_performAsync
  called _ := .of_contexts rfl
  storeResult c := by
    unfold storeResult
    exact uploads_updateContext c h' (fun _ => rfl) (fun _ => rfl)
  curlStop c := uploads_updateContext c h' (fun _ => rfl) (fun _ => rfl)
  posted _ := .of_contexts rfl

theorem uploads_polled (c : HttpClient) (h' o : Nat) (what : Poll) (again : List Nat) :
    Uploads h [] c (c.polled h' o what again) := by
  cases what with
  | pollIn => exact .of_contexts (congrFun (watch_contexts c o h' false) h)
  | pollOut => exact .of_contexts (congrFun (watch_contexts c o h' true) h)
  | pollInOut =>
    exact .of_contexts (congrFun ((watch_contexts _ o h' true).trans (watch_contexts c o h' false)) h)
  | pollRemove => exact (uploads_removal h').pollRemoved c again

theorem uploads_sockCb (c : HttpClient) (h' s : Nat) (what : Poll) (again : List Nat) :
    Uploads h [] c (c.sockCb h' s what again) := by
  cases hp : (c.contexts h').curlPrivate with
  | false =>
    rw [sockCb_of_null hp]
    exact .of_contexts rfl
  | true =>
    cases hs : c.lookup s with
    | none =>
      rw [sockCb_of_unknown hp hs]
      exact .of_contexts rfl
    | some o =>
      rw [sockCb_of_known hp hs]
      have hassign : Uploads h [] c
          ((c.note (.sock h' s what (c.contexts h').curlShared)).assign s (some o)) :=
        .of_contexts rfl
      exact hassign.trans (uploads_polled _ h' o what again)

/-- Only the read callback takes from the body. -/
theorem act_uploads {a : CurlAct} (hact : c.act a = some d) :
    Uploads h (capacities h [a]) c d := by
  cases acted_of_act hact with
  | opensocket supported opened s hfree =>
    exact .of_contexts (congrFun (opensocketCb_contexts c supported opened s) h)
  | closesocket s => exact .of_contexts (congrFun (closesocketCb_contexts c s) h)
  | sockCb h' s what again hadd =>
    have hsock : Uploads h [] c (c.sockCb h' s what again) := uploads_sockCb c h' s what again
    split
    · exact hsock.trans (.of_contexts rfl)
    · exact hsock
  | multiTimer ms => exact .of_contexts (congrFun (multiTimerCb_contexts c ms) h)
  | response h' code hb => exact .of_contexts rfl
  | read h' n hb =>
    by_cases hh : h' = h
    · subst hh
      have hcaps : capacities h' [.read h' n] = [(1, n)] := by
        simp [capacities, CurlAct.capacity]
      have hx := updateContext_self c h' (fun x => { x with txUnread := x.txUnread.drop n })
      refine ⟨by rw [hx], ?_⟩
      rw [hx, hcaps, reads, readCallback_eq, Nat.one_mul]
      rfl
    · have hcaps : capacities h [.read h' n] = [] := by
        simp [capacities, CurlAct.capacity, hh]
      rw [hcaps]
      exact .of_contexts (Function.update_of_ne (Ne.symm hh) _ _)
  | header h' line hb =>
    have hupdate : Uploads h [] c
        (c.updateContext h' (fun x => { x with rxHeaders := x.rxHeaders ++ [line] })) :=
      uploads_updateContext c h' (fun _ => rfl) (fun _ => rfl)
    exact hupdate.trans (.of_contexts rfl)
  | write h' data hb =>
    have hupdate : Uploads h [] c
        (c.updateContext h' (fun x => { x with rxBuffer := x.rxBuffer ++ data })) :=
      uploads_updateContext c h' (fun _ => rfl) (fun _ => rfl)
    exact hupdate.trans (.of_contexts rfl)
  | finish h' hb => exact .of_contexts rfl

theorem acts_uploads {as : List CurlAct} (hacts : c.acts as = some d) (hf : d.fault = none) :
    Uploads h (capacities h as) c d := by
  induction as generalizing c with
  | nil =>
    obtain rfl := Option.some.inj hacts
    exact .of_contexts rfl
  | cons a as ih =>
    have hc : ¬ c.fault.isSome = true := by
      rw [fault_of_acts hacts hf]
      exact Bool.false_ne_true
    rw [acts, if_neg hc] at hacts
    obtain ⟨b, hb, hd⟩ := Option.bind_eq_some_iff.mp hacts
    have hcaps : capacities h (a :: as) = capacities h [a] ++ capacities h as := by
      rw [capacities, ← List.singleton_append, List.filterMap_append]
      rfl
    rw [hcaps]
    exact (act_uploads hb).trans (ih hd)

theorem noActs_uploads {as : List CurlAct} (hn : c.noActs as = some d) :
    Uploads h (capacities h as) c d := by
  obtain ⟨rfl, rfl⟩ := noActs_eq_some hn
  exact .of_contexts rfl

theorem socketCb_uploads {w : Watch} {code : ErrorCode} {as : List CurlAct}
    (hd : c.socketCb w code as = some d) (hf : d.fault = none) :
    Uploads h (capacities h as) c d := by
  cases socketCalled_of_socketCb hd with
  | ignored hskip has =>
    subst has
    exact .of_contexts rfl
  | dangling he hw has => cases hf
  | stopped b he hb hstop => exact acts_uploads hb hf
  | watched b he hb hgo =>
    have hbf : b.fault = none := Option.not_isSome_iff_eq_none.mp (fun hc => hgo (Or.inl hc))
    have hwatch : Uploads h [] b (b.watch w.socket w.context false) :=
      .of_contexts (congrFun (watch_contexts _ _ _ _) h)
    have hall := (acts_uploads (h := h) hb hbf).trans hwatch
    rwa [List.append_nil] at hall

theorem pollRemove_uploads {h' : Nat} {as : List CurlAct} (hd : c.pollRemove h' as = some d)
    (hf : d.fault = none) : Uploads h (capacities h as) c d := by
  cases pollRemoved_of_pollRemove hd with
  | unknown has =>
    subst has
    exact .of_contexts rfl
  | crashed b hb hcrash => exact acts_uploads hb hf
  | removed b hb hbf =>
    have hremove : Uploads h [] b (note { b with curl := b.curl.remove h' } (.removed h')) :=
      .of_contexts rfl
    have hall := (acts_uploads (h := h) hb hbf).trans hremove
    rwa [List.append_nil] at hall

/-- `_perform` winds the stream of its request back before libcurl is called. -/
theorem perform_uploads {h' : Nat} {accepted : Bool} {as : List CurlAct}
    (hd : c.perform h' accepted as = some d) (hf : d.fault = none) :
    Uploads h (capacities h as) (c.curlStart h') d := by
  have hprivate : Uploads h [] (c.curlStart h') ((c.curlStart h').setPrivate h') :=
    uploads_updateContext _ h' (f := fun x => { x with curlPrivate := true }) (fun _ => rfl)
      (fun _ => rfl)
  cases performed_of_perform hd with
  | started d hacts =>
    have hadd : Uploads h [] ((c.curlStart h').setPrivate h')
        (note { (c.curlStart h').setPrivate h' with curl := c.curl.add h' } (.started h')) :=
      .of_contexts rfl
    exact (hprivate.trans hadd).trans (acts_uploads hacts hf)
  | refused has =>
    subst has
    have hrefused : Uploads h [] ((c.curlStart h').setPrivate h')
        (((c.curlStart h').setPrivate h').note (.refused h')) := .of_contexts rfl
    exact hprivate.trans hrefused
  | unsupported has => cases hf

/-- The event runs `_perform` for the request `h`. -/
def Performs (h : Nat) (c : HttpClient) : Event → Prop
  | .run i _ _ => c.queue[i]? = some (.perform h)
  | .performAsync _ | .ready _ | .expire | .timer _ _ => False

/-- Any handler but `_perform` for the request leaves its stream where libcurl has taken it. -/
theorem run_uploads {x : Work} {accepted : Bool} {as : List CurlAct} (hx : x ≠ .perform h)
    (hd : c.run accepted as x = some d) (hf : d.fault = none) :
    Uploads h (capacities h as) c d := by
  cases x with
  | perform h' =>
    have hh : h ≠ h' := fun hh => hx (hh ▸ rfl)
    have hother : Uploads h [] c (c.curlStart h') := .of_contexts (Function.update_of_ne hh _ _)
    exact hother.trans (perform_uploads hd hf)
  | pollRemove h' => exact pollRemove_uploads hd hf
  | deleteSocket o =>
    have hdelete : Uploads h [] c (c.deleteSocket o) := .of_contexts rfl
    exact hdelete.trans (noActs_uploads hd)
  | socketCb w code =>
    have hnote : Uploads h [] c (c.noteReadable w code) := by
      unfold noteReadable
      split
      · exact .of_contexts rfl
      · exact .of_contexts rfl
    exact hnote.trans (socketCb_uploads hd hf)

/-- One step reads into the buffers that libcurl passes in it, from the beginning of the body
when the step performs the request, and else from where the last one has stopped. -/
theorem step_uploads {ev : Event} (hd : c.step ev = some d) (hf : d.fault = none) :
    (¬ Performs h c ev → Uploads h (capacities h ev.acts) c d) ∧
      (Performs h c ev → Uploads h (capacities h ev.acts) (c.curlStart h) d) := by
  cases (stepped_of_step hd).2 with
  | performAsync h' => exact ⟨fun _ => uploads_performAsync c h', fun hp => hp.elim⟩
  | ready i w hw => exact ⟨fun _ => .of_contexts rfl, fun hp => hp.elim⟩
  | expire hp => exact ⟨fun _ => .of_contexts rfl, fun hp => hp.elim⟩
  | timeout i as x timer d hx hcode hacts =>
    refine ⟨fun _ => ?_, fun hp => hp.elim⟩
    have htimer : Uploads h [] c (timerCb { c with timer := timer } x.code) :=
      .of_contexts (congrFun (timerCb_contexts _ x.code) h)
    exact htimer.trans (acts_uploads hacts hf)
  | aborted i x timer hx hcode =>
    refine ⟨fun _ => ?_, fun hp => hp.elim⟩
    exact .of_contexts (congrFun (timerCb_contexts _ x.code) h)
  | run i accepted as x d hx hrun =>
    constructor
    · intro hp
      have herase : Uploads h [] c { c with queue := c.queue.eraseIdx i } := .of_contexts rfl
      exact herase.trans (run_uploads (fun he => hp (hx.trans (congrArg some he))) hrun hf)
    · intro hp
      obtain rfl := Option.some.inj (hx.symm.trans hp)
      have hsame : Uploads h [] (c.curlStart h)
          (curlStart { c with queue := c.queue.eraseIdx i } h) := .of_contexts rfl
      exact hsame.trans (perform_uploads hrun hf)

/-- The run of the step law: until the request is performed again, its stream goes on where the
last buffer was filled. -/
theorem runs_uploads {es : List Event} (hr : runs step c es = some d) (hf : d.fault = none)
    (hes : Along step (fun s ev => ¬ Performs h s ev) c es) :
    Uploads h (capacities h (es.flatMap Event.acts)) c d := by
  induction es generalizing c with
  | nil =>
    obtain rfl := Option.some.inj hr
    exact .of_contexts rfl
  | cons ev es ih =>
    obtain ⟨b, hb, hr⟩ := runs_cons_iff.mp hr
    obtain ⟨hev, hes⟩ := (along_cons hb).mp hes
    rw [List.flatMap_cons, capacities, List.filterMap_append]
    exact ((step_uploads hb (fault_of_runs hr hf)).1 hev).trans (ih hr hes)

/-- From the step that performs a request on, its stream is where the buffers of all reads so
far have taken it. -/
theorem performed_uploads {ev : Event} {es : List Event} (hp : Performs h c ev)
    (hd : c.step ev = some d) (hr : runs step d es = some e) (hf : e.fault = none)
    (hes : Along step (fun s ev => ¬ Performs h s ev) d es) :
    (e.contexts h).txUnread =
      (reads (capacities h (ev.acts ++ es.flatMap Event.acts)) (c.contexts h).txBuffer).2 := by
  have hall := ((step_uploads hd (fault_of_runs hr hf)).2 hp).trans (runs_uploads hr hf hes)
  rw [hall.txUnread, capacities, capacities, capacities, List.filterMap_append, curlStart,
    updateContext_self]

/-! ## From `tx_content()` to `content()` -/

/-- The body of a request arrives unchanged, however libcurl and the parser cut it: a call takes
as much as fits of what remains, the calls up to the one that returns 0 take all of it, and the
handler finds the same bytes. -/
theorem body_arrives (c : HttpClient) (h : Nat) {caps : List (Nat × Nat)} {size nmemb : Nat}
    (hroom : ∀ cap ∈ caps ++ [(size, nmemb)], 1 ≤ cap.1 * cap.2)
    (hzero : (readCallback size nmemb
      (reads caps ((c.curlStart h).contexts h).txUnread).2).1.length = 0)
    {State : Type} {parseUrl : Bytes → Option Server.UrlFields} {k k' : Server.Connection State}
    {m : Server.MessagePieces}
    (hcut : m.body.flatten = (reads caps ((c.curlStart h).contexts h).txUnread).1.flatten)
    (hm : k.Delivers parseUrl m.calls k') :
    (∀ before size' nmemb' after, caps ++ [(size, nmemb)] = before ++ (size', nmemb') :: after →
      (readCallback size' nmemb'
          (reads before ((c.curlStart h).contexts h).txUnread).2).1.length
        = min (size' * nmemb') ((c.contexts h).txContentLength
          - (reads before ((c.curlStart h).contexts h).txUnread).1.flatten.length)) ∧
    (reads caps ((c.curlStart h).contexts h).txUnread).1.flatten.length
      = (c.contexts h).txContentLength ∧
    k'.request.rxBuffer = (c.contexts h).txBuffer := by
  have hstream : ((c.curlStart h).contexts h).txUnread = (c.contexts h).txBuffer := by
    rw [curlStart, updateContext_self]
  rw [hstream] at hzero hcut ⊢
  have hlast := hroom (size, nmemb) (List.mem_append_right _ (List.mem_singleton.mpr rfl))
  have hall := reads_done hlast hzero
  refine ⟨fun before size' nmemb' _ _ => readCallback_length before size' nmemb' _, ?_, ?_⟩
  · rw [hall]
    rfl
  · rw [hm.rxBuffer.1, hcut, hall]

/-- The body ends with the second buffer, so that a third call has to say so. -/
theorem body_arrives_hello :
    ∃ k', (Server.Connection.new [] .zero ()).Delivers Server.readRooted
        Server.postPieces.calls k' ∧
      k'.request.rxBuffer = ascii "hello" := by
  have hurls : Server.Accepted Server.readRooted Server.postPieces.urls := by decide
  obtain ⟨k', hk, -⟩ := Server.Connection.message_delivers (Server.Connection.new [] .zero ())
    hurls (by decide) (by decide)
  have hroom : ∀ cap ∈ [(1, 2), (1, 3)] ++ [(1, 16)], 1 ≤ cap.1 * cap.2 := by decide
  obtain ⟨-, -, hbody⟩ :=
    body_arrives (new (fun _ => 3) (fun _ => ascii "hello")) 0 hroom (by decide) (by decide) hk
  exact ⟨k', hk, hbody⟩

end HttpClient

end CsiHttp.Client
