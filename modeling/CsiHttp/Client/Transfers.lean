import CsiHttp.Client.HttpClient
import CsiHttp.Lib.Monitor
import CsiHttp.Lib.Runs

/-!
# Transfers

What the log of a client tells about a request, and the invariant that ties it to the
state. `Agrees h c` speaks about one request `h`; a step is either `Quiet` for it, or it
is one of the few things that the history of the request records.
-/
namespace CsiHttp.Client

open Lib Lib.Text

inductive Phase where
  | idle
  | running
  | refused
  | finished (code : Nat)
  deriving DecidableEq, Repr

/-- What libcurl has received for a request. -/
structure Answer where
  headers : List Bytes
  body : Bytes
  deriving DecidableEq, Repr

/-- The history of a request since its last `_perform`. -/
structure Transfer where
  phase : Phase
  /-- libcurl has stopped watching a socket of the client on behalf of the request. -/
  removed : Bool
  called : Bool
  /-- The callback was invoked before the last `_perform`. -/
  calledBefore : Bool
  code : Nat
  /-- What libcurl has received in the last transfer that it accepted. -/
  answer : Answer
  /-- What it has received in the transfers before. -/
  earlier : Answer
  /-- The sockets that `opensocket_cb` has opened and that are not closed yet. -/
  opened : List Nat
  deriving DecidableEq, Repr

namespace Transfer

def new : Transfer := ⟨.idle, false, false, false, 0, ⟨[], []⟩, ⟨[], []⟩, []⟩

def begin (t : Transfer) (phase : Phase) : Transfer :=
  { t with
    phase := phase
    removed := false
    called := false
    calledBefore := t.called || t.calledBefore }

def start (t : Transfer) : Transfer :=
  { t.begin .running with
    code := 0
    answer := ⟨[], []⟩
    earlier := ⟨t.earlier.headers ++ t.answer.headers, t.earlier.body ++ t.answer.body⟩ }

def next (h : Nat) (t : Transfer) : Obs → Transfer
  | .opened s => { t with opened := s :: t.opened }
  | .closed s => { t with opened := t.opened.filter (fun s' => s' != s) }
  | .started h' => if h' = h then t.start else t
  | .refused h' => if h' = h then t.begin .refused else t
  | .response h' code => if h' = h then { t with code := code } else t
  | .header h' line =>
    if h' = h then { t with answer := { t.answer with headers := t.answer.headers ++ [line] } } else t
  | .body h' data =>
    if h' = h then { t with answer := { t.answer with body := t.answer.body ++ data } } else t
  | .finished h' code => if h' = h then { t with phase := .finished code } else t
  | .sock h' s what _ =>
    if h' = h ∧ what = .pollRemove ∧ s ∈ t.opened then { t with removed := true } else t
  | .called h' _ => if h' = h then { t with called := true } else t
  | _ => t

end Transfer

/-- The callback of `h` is invoked once, after the transfer has finished and with the code
of the final response, and `CURLOPT_PRIVATE` yields the live context whenever `sock_cb` is
called on a socket of the client. -/
def callsBackOnce (h : Nat) : Monitor Obs Transfer where
  next := Transfer.next h
  ok t
    | .called h' x => h' = h → t.phase = .finished x.httpResult ∧ t.called = false
    | .sock h' s _ live => h' = h → s ∈ t.opened → live = true
    | _ => True

/-- libcurl stops watching a socket of the client on behalf of `h` only after the transfer
has finished, and makes no socket callback on such a socket afterwards. -/
def removedLast (h : Nat) : Monitor Obs Transfer where
  next := Transfer.next h
  ok t
    | .sock h' s what _ => h' = h → s ∈ t.opened →
        t.removed = false ∧ (what = .pollRemove → ∃ code, t.phase = .finished code)
    | _ => True

/-- The context `x` as it would be at its callback if it had been created for the transfer. -/
def Transfer.fresh (t : Transfer) (x : CallContext) : CallContext :=
  { CallContext.new x.method x.txBuffer with
    rxHeaders := t.answer.headers
    rxBuffer := t.answer.body
    httpResult := t.code
    transportOk := some (decide (0 < t.code)) }

/-- The callback of a request that is sent again sees what a new context would contain. -/
def likeFresh (h : Nat) : Monitor Obs Transfer where
  next := Transfer.next h
  ok t
    | .called h' x => h' = h → x.outcome = (t.fresh x).outcome
    | _ => True

/-- Earlier transfers of `h` have brought neither headers nor content when it is called
back. -/
def nothingEarlier (h : Nat) : Monitor Obs Transfer where
  next := Transfer.next h
  ok t
    | .called h' _ => h' = h → t.earlier = ⟨[], []⟩
    | _ => True

/-- A readable socket of a request that is sent again is read until the request is called
back, like one of a new context. -/
def readLikeFresh (h : Nat) : Monitor Obs Transfer where
  next := Transfer.next h
  ok t
    | .readable h' handled => h' = h → handled = !t.called
    | _ => True

/-- No completion for `h` reaches `socket_rx_cb` between two of its callbacks. -/
def firstUse (h : Nat) : Monitor Obs Transfer where
  next := Transfer.next h
  ok t
    | .readable h' _ => h' = h → t.calledBefore = true → t.called = true
    | _ => True

def transfer (h : Nat) (log : List Obs) : Transfer := log.foldl (Transfer.next h) .new

theorem transfer_append (h : Nat) (l l' : List Obs) :
    transfer h (l ++ l') = l'.foldl (Transfer.next h) (transfer h l) := List.foldl_append

/-- Observations that say nothing about `h` and its sockets. -/
def Neutral (h : Nat) : Obs → Prop
  | .opened _ | .closed _ => False
  | .started h' | .refused h' | .response h' _ | .header h' _ | .body h' _ | .finished h' _
  | .sock h' _ _ _ | .readable h' _ | .called h' _ => h' ≠ h
  | .removed _ | .timeoutAction => True

/-- The monitors accept the observation. -/
structure Approved (h : Nat) (t : Transfer) (o : Obs) : Prop where
  callsBackOnce : (callsBackOnce h).ok t o
  removedLast : (removedLast h).ok t o
  likeFresh : (likeFresh h).ok t o
  nothingEarlier : (nothingEarlier h).ok t o
  readLikeFresh : (readLikeFresh h).ok t o
  firstUse : (firstUse h).ok t o

/-- Observations that no monitor judges. -/
def Obs.Unjudged : Obs → Prop
  | .sock _ _ _ _ | .readable _ _ | .called _ _ => False
  | _ => True

theorem Obs.Unjudged.approved {h : Nat} {t : Transfer} {o : Obs} (ho : o.Unjudged) :
    Approved h t o := by
  cases o with
  | sock h' s what live => exact ho.elim
  | readable h' handled => exact ho.elim
  | called h' x => exact ho.elim
  | _ => exact ⟨trivial, trivial, trivial, trivial, trivial, trivial⟩

theorem Neutral.next {h : Nat} {o : Obs} (ho : Neutral h o) (t : Transfer) : t.next h o = t := by
  cases o with
  | opened s => exact ho.elim
  | closed s => exact ho.elim
  | started h' => exact if_neg ho
  | refused h' => exact if_neg ho
  | response h' code => exact if_neg ho
  | header h' line => exact if_neg ho
  | body h' data => exact if_neg ho
  | finished h' code => exact if_neg ho
  | sock h' s what live => exact if_neg (fun hn => ho hn.1)
  | called h' x => exact if_neg ho
  | _ => rfl

theorem Neutral.approved {h : Nat} {o : Obs} (ho : Neutral h o) (t : Transfer) :
    Approved h t o := by
  cases o with
  | sock h' s what live =>
    exact ⟨fun hh => absurd hh ho, fun hh => absurd hh ho, trivial, trivial, trivial, trivial⟩
  | readable h' handled =>
    exact ⟨trivial, trivial, trivial, trivial, fun hh => absurd hh ho, fun hh => absurd hh ho⟩
  | called h' x =>
    exact ⟨fun hh => absurd hh ho, trivial, fun hh => absurd hh ho, fun hh => absurd hh ho,
      trivial, trivial⟩
  | _ => exact Obs.Unjudged.approved trivial

/-- The laws of a request hold of a log exactly if their conditions do. -/
structure Judged (h : Nat) (log : List Obs) : Prop where
  calls : (callsBackOnce h).Accepts .new log ↔ (removedLast h).Accepts .new log
  fresh : (likeFresh h).Accepts .new log ↔ (nothingEarlier h).Accepts .new log
  read : (readLikeFresh h).Accepts .new log ↔ (firstUse h).Accepts .new log

/-- New observations are judged alike if they are whenever the log so far is accepted. -/
theorem Judged.append {h : Nat} {log l : List Obs} (hj : Judged h log)
    (hc : (callsBackOnce h).Accepts (transfer h log) l ↔
      (removedLast h).Accepts (transfer h log) l)
    (hf : (likeFresh h).Accepts (transfer h log) l ↔
      (nothingEarlier h).Accepts (transfer h log) l)
    (hr : (readLikeFresh h).Accepts (transfer h log) l ↔
      (firstUse h).Accepts (transfer h log) l) :
    Judged h (log ++ l) where
  calls := Monitor.accepts_append_congr hj.calls hc
  fresh := Monitor.accepts_append_congr hj.fresh hf
  read := Monitor.accepts_append_congr hj.read hr

theorem Judged.approved {h : Nat} {log : List Obs} {o : Obs} (hj : Judged h log)
    (ho : Approved h (transfer h log) o) : Judged h (log ++ [o]) :=
  hj.append (iff_of_true ⟨ho.callsBackOnce, trivial⟩ ⟨ho.removedLast, trivial⟩)
    (iff_of_true ⟨ho.likeFresh, trivial⟩ ⟨ho.nothingEarlier, trivial⟩)
    (iff_of_true ⟨ho.readLikeFresh, trivial⟩ ⟨ho.firstUse, trivial⟩)

theorem transfer_append_neutral {h : Nat} {l : List Obs} (log : List Obs)
    (hl : ∀ o ∈ l, Neutral h o) : transfer h (log ++ l) = transfer h log := by
  rw [transfer_append]
  exact Monitor.after_of_still (M := callsBackOnce h) (fun o ho => (hl o ho).next _)

theorem Judged.neutral {h : Nat} {log l : List Obs} (hj : Judged h log)
    (hl : ∀ o ∈ l, Neutral h o) : Judged h (log ++ l) := by
  induction l generalizing log with
  | nil => rwa [List.append_nil]
  | cons o l ih =>
    obtain ⟨ho, hl⟩ := List.forall_mem_cons.mp hl
    rw [List.append_cons]
    exact ih (hj.approved (ho.approved _)) hl

namespace HttpClient

/-- A relation between states that is kept where `sock_cb` ends the request `h`. -/
structure KeptByRemoval (h : Nat) (R : HttpClient → HttpClient → Prop) : Prop where
  refl : ∀ c, R c c
  trans : ∀ {c d e}, R c d → R d e → R c e
  performAsync : ∀ c h', R c (c.performAsync h')
  called : ∀ c, R c (c.note (.called h (c.contexts h)))
  storeResult : ∀ c, R c (c.storeResult h)
  curlStop : ∀ c, R c (c.curlStop h)
  posted : ∀ c, R c (c.post (.pollRemove h))

theorem KeptByRemoval.pollRemoved {h : Nat} {R : HttpClient → HttpClient → Prop}
    (k : KeptByRemoval h R) (c : HttpClient) (again : List Nat) : R c (c.pollRemoved h again) := by
  have hcall : R (c.storeResult h) ((c.storeResult h).invokeCallback h again) := by
    unfold invokeCallback
    split
    · exact List.foldlRecOn again HttpClient.performAsync (k.called _)
        (fun d hd h' _ => k.trans hd (k.performAsync d h'))
    · exact k.refl _
  exact k.trans (k.trans (k.trans (k.storeResult c) hcall) (k.curlStop _)) (k.posted _)

/-! ## Quiet steps -/

/-- A context apart from what `perform_async` and `read_callback_avro_stream` change. -/
def kept (x : CallContext) : CallContext := { x with hasCallback := true, txUnread := [] }

/-- What may happen between `c` and `d` that is no news for the request `h`. -/
structure Quiet (h : Nat) (c d : HttpClient) : Prop where
  context : kept (d.contexts h) = kept (c.contexts h)
  hasCallback : (c.contexts h).hasCallback = true → (d.contexts h).hasCallback = true
  posted : .perform h ∈ d.queue → .perform h ∈ c.queue ∨ (d.contexts h).hasCallback = true
  socketMap : d.socketMap = c.socketMap
  assigned : ∀ s o, d.curl.assigned s = some o →
    c.curl.assigned s = some o ∨ c.socketMap s = some o
  added : d.curl.added h = true → c.curl.added h = true
  finished : d.curl.finished h = c.curl.finished h
  responseCode : d.curl.responseCode h = c.curl.responseCode h
  log : ∃ l, d.log = c.log ++ l ∧ ∀ o ∈ l, Neutral h o

variable {h : Nat} {c d e : HttpClient}

theorem Quiet.curlPrivate (hq : Quiet h c d) :
    (d.contexts h).curlPrivate = (c.contexts h).curlPrivate := by
  have hf := congrArg CallContext.curlPrivate hq.context
  exact hf

theorem Quiet.curlShared (hq : Quiet h c d) :
    (d.contexts h).curlShared = (c.contexts h).curlShared := by
  have hf := congrArg CallContext.curlShared hq.context
  exact hf

theorem Quiet.curlDone (hq : Quiet h c d) : (d.contexts h).curlDone = (c.contexts h).curlDone := by
  have hf := congrArg CallContext.curlDone hq.context
  exact hf

theorem Quiet.rxHeaders (hq : Quiet h c d) :
    (d.contexts h).rxHeaders = (c.contexts h).rxHeaders := by
  have hf := congrArg CallContext.rxHeaders hq.context
  exact hf

theorem Quiet.rxBuffer (hq : Quiet h c d) : (d.contexts h).rxBuffer = (c.contexts h).rxBuffer := by
  have hf := congrArg CallContext.rxBuffer hq.context
  exact hf

theorem Quiet.refl (h : Nat) (c : HttpClient) : Quiet h c c where
  context := rfl
  hasCallback := id
  posted := .inl
  socketMap := rfl
  assigned _ _ := .inl
  added := id
  finished := rfl
  responseCode := rfl
  log := ⟨[], (List.append_nil _).symm, fun _ ho => nomatch ho⟩

theorem Quiet.trans (hcd : Quiet h c d) (hde : Quiet h d e) : Quiet h c e where
  context := hde.context.trans hcd.context
  hasCallback hc := hde.hasCallback (hcd.hasCallback hc)
  posted hp := by
    obtain hp | hp := hde.posted hp
    · exact (hcd.posted hp).imp_right hde.hasCallback
    · exact .inr hp
  socketMap := hde.socketMap.trans hcd.socketMap
  assigned s o hs := by
    obtain hs | hs := hde.assigned s o hs
    · exact hcd.assigned s o hs
    · exact .inr (hcd.socketMap ▸ hs)
  added ha := hcd.added (hde.added ha)
  finished := hde.finished.trans hcd.finished
  responseCode := hde.responseCode.trans hcd.responseCode
  log := by
    obtain ⟨l, hl, hn⟩ := hcd.log
    obtain ⟨l', hl', hn'⟩ := hde.log
    refine ⟨l ++ l', by rw [hl', hl, List.append_assoc], fun o ho => ?_⟩
    exact (List.mem_append.mp ho).elim (hn o) (hn' o)

/-- A change of what the history of `h` does not depend on. -/
theorem Quiet.aside (hx : d.contexts h = c.contexts h)
    (hq : .perform h ∈ d.queue → .perform h ∈ c.queue) (hm : d.socketMap = c.socketMap)
    (hc : d.curl = c.curl) (hl : d.log = c.log) : Quiet h c d where
  context := by rw [hx]
  hasCallback hc := by rwa [hx]
  posted hp := .inl (hq hp)
  socketMap := hm
  assigned s o hs := .inl (hc ▸ hs)
  added ha := hc ▸ ha
  finished := by rw [hc]
  responseCode := by rw [hc]
  log := ⟨[], by rw [hl, List.append_nil], fun _ ho => nomatch ho⟩

theorem quiet_note {o : Obs} (c : HttpClient) (ho : Neutral h o) : Quiet h c (c.note o) :=
  { Quiet.refl h c with log := ⟨[o], rfl, fun _ ho' => List.mem_singleton.mp ho' ▸ ho⟩ }

theorem quiet_crash (c : HttpClient) (f : Fault) : Quiet h c (c.crash f) :=
  .aside rfl id rfl rfl rfl

theorem quiet_post {w : Work} (c : HttpClient) (hw : w ≠ .perform h) : Quiet h c (c.post w) := by
  refine .aside rfl (fun hp => ?_) rfl rfl rfl
  obtain hp | hp := List.mem_append.mp hp
  · exact hp
  · exact absurd (List.mem_singleton.mp hp).symm hw

theorem quiet_updateContext {h' : Nat} (c : HttpClient) (f : CallContext → CallContext)
    (hh : h' ≠ h) : Quiet h c (c.updateContext h' f) :=
  .aside (Function.update_of_ne hh.symm _ _) id rfl rfl rfl

theorem updateContext_self (c : HttpClient) (h : Nat) (f : CallContext → CallContext) :
    (c.updateContext h f).contexts h = f (c.contexts h) := Function.update_self _ _ _

theorem quiet_performAsync (c : HttpClient) (h' : Nat) : Quiet h c (c.performAsync h') := by
  by_cases hh : h' = h
  · subst hh
    have hx : (c.performAsync h').contexts h' = { c.contexts h' with hasCallback := true } :=
      updateContext_self c h' (fun x => { x with hasCallback := true })
    exact { Quiet.refl h' c with
      context := by
        rw [hx]
        rfl
      hasCallback := fun _ => by rw [hx]
      posted := fun _ => .inr (by rw [hx])
      log := ⟨[], (List.append_nil _).symm, fun _ ho => nomatch ho⟩ }
  · refine (quiet_updateContext c _ hh).trans (quiet_post _ ?_)
    simpa using hh

theorem quiet_performAsyncs (c : HttpClient) (again : List Nat) :
    Quiet h c (again.foldl performAsync c) :=
  List.foldlRecOn again performAsync (.refl h c)
    (fun d hd h' _ => hd.trans (quiet_performAsync d h'))

theorem performAsyncs_log (c : HttpClient) (again : List Nat) :
    (again.foldl performAsync c).log = c.log := by
  refine List.foldlRecOn (motive := fun d => d.log = c.log) again performAsync rfl ?_
  intro d hd h' _
  exact hd

theorem assign_assigned (c : HttpClient) (s : Nat) (o : Option Nat) :
    (c.assign s o).curl.assigned = Function.update c.curl.assigned s o := rfl

theorem quiet_assign {s : Nat} {o : Option Nat} (c : HttpClient)
    (ho : ∀ p, o = some p → c.socketMap s = some p) : Quiet h c (c.assign s o) :=
  { Quiet.refl h c with
    assigned := fun s' p hs => by
      rw [assign_assigned, Function.update_apply] at hs
      split at hs
      · next hss => exact .inr (hss ▸ ho p hs)
      · exact .inl hs
    log := ⟨[], (List.append_nil _).symm, fun _ ho => nomatch ho⟩ }

theorem quiet_cancelSocket (c : HttpClient) (o : Nat) : Quiet h c (c.cancelSocket o) := by
  refine .aside rfl (fun hp => ?_) rfl rfl rfl
  obtain hp | hp := List.mem_append.mp hp
  · exact hp
  · obtain ⟨w, -, hw⟩ := List.mem_map.mp hp
    exact nomatch hw

theorem quiet_closeSocket (c : HttpClient) (o : Nat) : Quiet h c (c.closeSocket o) :=
  .aside rfl id rfl rfl rfl

theorem quiet_timerCb (c : HttpClient) (e : ErrorCode) : Quiet h c (c.timerCb e) := by
  cases e with
  | success => exact quiet_note c trivial
  | operationAborted => exact .refl h c
  | failure => exact .refl h c

theorem quiet_multiTimerCb (c : HttpClient) (ms : Int) : Quiet h c (c.multiTimerCb ms) := by
  unfold multiTimerCb
  split
  · exact .aside rfl id rfl rfl rfl
  · refine Quiet.trans ?_ (quiet_timerCb _ _)
    exact .aside rfl id rfl rfl rfl

theorem quiet_watch (c : HttpClient) (o h' : Nat) (output : Bool) :
    Quiet h c (c.watch o h' output) := by
  unfold watch
  split
  · split
    · exact .aside rfl id rfl rfl rfl
    · exact quiet_post c (fun hw => nomatch hw)
  · exact quiet_crash c _

theorem quiet_removal {h' : Nat} (hh : h' ≠ h) : KeptByRemoval h' (Quiet h) where
  refl := .refl h
  trans := .trans
  performAsync := quiet_performAsync
  called c := quiet_note (o := .called h' (c.contexts h')) c hh
  storeResult c := by
    unfold storeResult
    exact quiet_updateContext c _ hh
  curlStop c := quiet_updateContext c _ hh
  posted c := quiet_post c (fun hw => by cases hw)

/-! ## The invariant -/

/-- The client and libcurl are where the history of `h` says. -/
structure Matches (h : Nat) (t : Transfer) (c : HttpClient) : Prop where
  opened : ∀ s, s ∈ t.opened ↔ (c.socketMap s).isSome = true
  assigned : ∀ s o, c.curl.assigned s = some o → c.socketMap s = some o
  curlPrivate : (c.contexts h).curlPrivate = true ↔ t.phase ≠ .idle ∧ t.removed = false
  curlShared : (c.contexts h).curlPrivate = true → (c.contexts h).curlShared = true
  added : c.curl.added h = true → t.phase ≠ .idle
  finished : ∀ code, t.phase = .finished code →
    c.curl.finished h = true ∧ c.curl.responseCode h = code
  posted : .perform h ∈ c.queue → (c.contexts h).hasCallback = true
  hasCallback : t.phase ≠ .idle → (c.contexts h).hasCallback = true
  called : t.called = t.removed
  curlDone : (c.contexts h).curlDone = (t.called || t.calledBefore)
  responseCode : c.curl.responseCode h = t.code
  rxHeaders : (c.contexts h).rxHeaders = t.earlier.headers ++ t.answer.headers
  rxBuffer : (c.contexts h).rxBuffer = t.earlier.body ++ t.answer.body

structure Agrees (h : Nat) (c : HttpClient) : Prop where
  here : Matches h (transfer h c.log) c
  judged : Judged h c.log

theorem agrees_new (method : Nat → Nat) (content : Nat → Bytes) (h : Nat) :
    Agrees h (new method content) where
  here :=
    { opened := fun _ => iff_of_false (fun hs => nomatch hs) (fun hs => nomatch hs)
      assigned := fun _ _ hs => nomatch hs
      curlPrivate := iff_of_false (fun hp => nomatch hp) (fun hp => hp.1 rfl)
      curlShared := fun hp => nomatch hp
      added := fun ha => nomatch ha
      finished := fun _ hc => nomatch hc
      posted := fun hp => nomatch hp
      hasCallback := fun hp => absurd rfl hp
      called := rfl
      curlDone := rfl
      responseCode := rfl
      rxHeaders := rfl
      rxBuffer := rfl }
  judged := ⟨Iff.rfl, Iff.rfl, Iff.rfl⟩

theorem Matches.quiet {t : Transfer} (hm : Matches h t c) (hq : Quiet h c d) :
    Matches h t d where
  opened s := by rw [hq.socketMap, hm.opened]
  assigned s o hs := by
    rw [hq.socketMap]
    exact (hq.assigned s o hs).elim (hm.assigned s o) id
  curlPrivate := by rw [hq.curlPrivate, hm.curlPrivate]
  curlShared hp := by
    rw [hq.curlShared]
    exact hm.curlShared (hq.curlPrivate ▸ hp)
  added ha := hm.added (hq.added ha)
  finished code hc := by
    rw [hq.finished, hq.responseCode]
    exact hm.finished code hc
  posted hp := (hq.posted hp).elim (fun hp => hq.hasCallback (hm.posted hp)) id
  hasCallback hp := hq.hasCallback (hm.hasCallback hp)
  called := hm.called
  curlDone := hq.curlDone.trans hm.curlDone
  responseCode := hq.responseCode.trans hm.responseCode
  rxHeaders := hq.rxHeaders.trans hm.rxHeaders
  rxBuffer := hq.rxBuffer.trans hm.rxBuffer

theorem Agrees.quiet (ha : Agrees h c) (hq : Quiet h c d) : Agrees h d := by
  obtain ⟨l, hl, hn⟩ := hq.log
  constructor
  · rw [hl, transfer_append_neutral c.log hn]
    exact ha.here.quiet hq
  · rw [hl]
    exact ha.judged.neutral hn

/-- A new observation that the monitors accept. -/
theorem Agrees.accepted {o : Obs} (ha : Agrees h c) (hl : d.log = c.log ++ [o])
    (hm : Matches h ((transfer h c.log).next h o) d) (ho : Approved h (transfer h c.log) o) :
    Agrees h d := by
  constructor
  · rw [hl, transfer_append]
    exact hm
  · rw [hl]
    exact ha.judged.approved ho

/-! ## Sockets are opened and closed -/

theorem opensocketCb_agrees (ha : Agrees h c) (supported opened : Bool) (s : Nat) :
    Agrees h (c.opensocketCb supported opened s) := by
  unfold opensocketCb
  split
  · refine ha.accepted (o := .opened s) rfl ?_ (Obs.Unjudged.approved trivial)
    exact { ha.here with
      opened := fun s' => by
        simp only [note, Transfer.next, Function.update_apply, List.mem_cons, ha.here.opened]
        split
        · next hs => simp [hs]
        · next hs => simp [hs]
      assigned := fun s' o ho => by
        have hs' := ha.here.assigned s' o ho
        simp only [note, Function.update_apply]
        split
        · next hs =>
          rw [← hs, hs']
          rfl
        · exact hs' }
  · exact ha

theorem closesocketCb_agrees (ha : Agrees h c) (s : Nat) : Agrees h (c.closesocketCb s) := by
  have hopened : ∀ s', s' ∈ ((transfer h c.log).next h (.closed s)).opened ↔
      s' ≠ s ∧ (c.socketMap s').isSome = true := by
    intro s'
    simp [Transfer.next, ha.here.opened, and_comm]
  cases hs : c.socketMap s with
  | some o =>
    have hd : c.closesocketCb s = ((((((c.note (.closed s)).cancelSocket o).closeSocket o).assign s
        none).eraseSocket s).post (.deleteSocket o)) := by
      simp only [closesocketCb, note, hs]
    -- what is done besides the removal from the map
    have hq : Quiet h c ((((c.cancelSocket o).closeSocket o).assign s none).post
        (.deleteSocket o)) := by
      refine ((quiet_cancelSocket c o).trans (quiet_closeSocket _ o)).trans ?_
      exact (quiet_assign (o := none) _ (fun _ hp => nomatch hp)).trans
        (quiet_post _ (fun hw => nomatch hw))
    rw [hd]
    refine ha.accepted (o := .closed s) rfl ?_ (Obs.Unjudged.approved trivial)
    exact { ha.here.quiet hq with
      opened := fun s' => by
        rw [hopened]
        by_cases hss : s' = s
        · simp [post, eraseSocket, hss]
        · simp [post, eraseSocket, hss, assign, closeSocket, cancelSocket, note]
      assigned := fun s' p hp => by
        by_cases hss : s' = s
        · simp [post, eraseSocket, hss, assign, Curl.assign] at hp
        · simp only [post, eraseSocket, assign, Curl.assign, closeSocket, cancelSocket, note,
            Function.update_of_ne hss] at hp ⊢
          exact ha.here.assigned s' p hp }
  | none =>
    have hd : c.closesocketCb s = c.note (.closed s) := by simp only [closesocketCb, note, hs]
    rw [hd]
    refine ha.accepted (o := .closed s) rfl ?_ (Obs.Unjudged.approved trivial)
    exact { ha.here with
      opened := fun s' => by
        rw [hopened]
        refine and_iff_right_of_imp (fun hs' hss => ?_)
        rw [hss, hs] at hs'
        exact nomatch hs' }

/-! ## Socket callbacks -/

/-- `sock_cb` finds the socket object of every socket of the client, and no other. -/
theorem lookup_isSome (ha : Agrees h c) (s : Nat) :
    (c.lookup s).isSome = true ↔ s ∈ (transfer h c.log).opened := by
  rw [ha.here.opened, lookup]
  cases hs : c.curl.assigned s with
  | none => rfl
  | some o => simp [ha.here.assigned s o hs]

theorem lookup_eq_some (ha : Agrees h c) {s o : Nat} (ho : c.lookup s = some o) :
    c.socketMap s = some o := by
  rw [lookup] at ho
  cases hs : c.curl.assigned s with
  | none => simpa [hs] using ho
  | some o' =>
    rw [hs, Option.some_or] at ho
    rw [ha.here.assigned s o' hs, ho]

theorem sockCb_of_null (hp : (c.contexts h).curlPrivate = false) (s : Nat) (what : Poll)
    (again : List Nat) :
    c.sockCb h s what again = (c.note (.sock h s what false)).crash .nullContext := by
  simp only [sockCb, hp, Bool.false_and, Bool.false_eq_true, if_false]

theorem sockCb_of_unknown {s : Nat} (hp : (c.contexts h).curlPrivate = true)
    (hs : c.lookup s = none) (what : Poll) (again : List Nat) :
    c.sockCb h s what again = c.note (.sock h s what (c.contexts h).curlShared) := by
  have hs' : ∀ o, (c.note o).lookup s = none := fun _ => hs
  simp only [sockCb, hp, hs', Bool.true_and, if_true]

theorem sockCb_of_known {s o : Nat} (hp : (c.contexts h).curlPrivate = true)
    (hs : c.lookup s = some o) (what : Poll) (again : List Nat) :
    c.sockCb h s what again =
      ((c.note (.sock h s what (c.contexts h).curlShared)).assign s (some o)).polled h o what
        again := by
  have hs' : ∀ o', (c.note o').lookup s = some o := fun _ => hs
  simp only [sockCb, hp, hs', Bool.true_and, if_true]

theorem quiet_polled {h' o : Nat} {what : Poll} (c : HttpClient) (again : List Nat)
    (hw : what = .pollRemove → h' ≠ h) : Quiet h c (c.polled h' o what again) := by
  cases what with
  | pollIn => exact quiet_watch c _ _ _
  | pollOut => exact quiet_watch c _ _ _
  | pollInOut => exact (quiet_watch c _ _ _).trans (quiet_watch _ _ _ _)
  | pollRemove => exact (quiet_removal (hw rfl)).pollRemoved c again

/-- A socket callback for another request. -/
theorem sockCb_other (ha : Agrees h c) {h' : Nat} (hh : h' ≠ h) (s : Nat) (what : Poll)
    (again : List Nat) : Agrees h (c.sockCb h' s what again) := by
  have hn : ∀ live, Quiet h c (c.note (.sock h' s what live)) := fun live =>
    quiet_note (o := .sock h' s what live) c hh
  cases hp : (c.contexts h').curlPrivate with
  | false =>
    rw [sockCb_of_null hp]
    exact (ha.quiet (hn _)).quiet (quiet_crash _ _)
  | true =>
    cases hs : c.lookup s with
    | none =>
      rw [sockCb_of_unknown hp hs]
      exact ha.quiet (hn _)
    | some o =>
      rw [sockCb_of_known hp hs]
      refine (((ha.quiet (hn _)).quiet (quiet_assign _ ?_)).quiet (quiet_polled _ again fun _ => hh))
      rintro p ⟨⟩
      exact lookup_eq_some ha hs

/-- A socket callback after the request has been called back: the private pointer is
null. -/
theorem sockCb_null (ha : Agrees h c) (hadd : c.curl.added h = true)
    (hp : (c.contexts h).curlPrivate = false) (s : Nat) (what : Poll) (again : List Nat) :
    Agrees h (c.sockCb h s what again) := by
  have hremoved : (transfer h c.log).removed = true := by
    by_contra hr
    have hpriv := ha.here.curlPrivate.mpr ⟨ha.here.added hadd, by simpa using hr⟩
    exact Bool.false_ne_true (hp.symm.trans hpriv)
  have hnext : (transfer h c.log).next h (.sock h s what false) = transfer h c.log := by
    simp only [Transfer.next]
    split
    · rw [← hremoved]
    · rfl
  rw [sockCb_of_null hp]
  refine Agrees.quiet ?_ (quiet_crash _ _)
  constructor
  · rw [note, transfer_append]
    show Matches h ((transfer h c.log).next h (.sock h s what false)) _
    rw [hnext]
    exact { ha.here with }
  · refine ha.judged.append ?_ (iff_of_true ⟨trivial, trivial⟩ ⟨trivial, trivial⟩)
      (iff_of_true ⟨trivial, trivial⟩ ⟨trivial, trivial⟩)
    simp [callsBackOnce, removedLast, hremoved]

/-- A socket callback that both monitors accept and that the history does not record. -/
theorem note_sock (ha : Agrees h c) (hp : (c.contexts h).curlPrivate = true) {s : Nat}
    {what : Poll} (hw : what = .pollRemove → s ∉ (transfer h c.log).opened) :
    Agrees h (c.note (.sock h s what (c.contexts h).curlShared)) := by
  have hnext : (transfer h c.log).next h (.sock h s what (c.contexts h).curlShared) =
      transfer h c.log := if_neg (fun hn => hw hn.2.1 hn.2.2)
  refine ha.accepted (o := .sock h s what (c.contexts h).curlShared) rfl ?_
    ⟨fun _ _ => ha.here.curlShared hp, fun _ hs => ?_, trivial, trivial, trivial, trivial⟩
  · rw [hnext]
    exact { ha.here with }
  · exact ⟨(ha.here.curlPrivate.mp hp).2, fun hr => absurd hs (hw hr)⟩

/-! ## The callback of a request -/

theorem Matches.note {t : Transfer} (hm : Matches h t c) (o : Obs) : Matches h t (c.note o) :=
  { hm with }

theorem storeResult_self (c : HttpClient) (h : Nat) :
    (c.storeResult h).contexts h = { c.contexts h with
      httpResult := c.curl.responseCode h
      curlDone := true
      transportOk := some (decide (0 < c.curl.responseCode h)) } := by
  unfold storeResult
  exact updateContext_self c h _

/-- The context when the callback has been invoked, apart from `again`. -/
theorem stop_matches {t : Transfer} (hm : Matches h t c) :
    Matches h { t with removed := true, called := true } ((c.storeResult h).curlStop h) := by
  have hx : ((c.storeResult h).curlStop h).contexts h = { c.contexts h with
      httpResult := c.curl.responseCode h
      curlDone := true
      transportOk := some (decide (0 < c.curl.responseCode h))
      curlShared := false
      curlPrivate := false } := by
    rw [curlStop, updateContext_self, storeResult_self]
  exact { hm with
    curlPrivate := by
      rw [hx]
      exact iff_of_false Bool.false_ne_true (fun hp => Bool.false_ne_true hp.2.symm)
    curlShared := fun hp => by
      rw [hx] at hp
      exact absurd hp Bool.false_ne_true
    posted := fun hp => by
      rw [hx]
      exact hm.posted hp
    hasCallback := fun hp => by
      rw [hx]
      exact hm.hasCallback hp
    called := rfl
    curlDone := by rw [hx, Bool.true_or]
    rxHeaders := by
      rw [hx]
      exact hm.rxHeaders
    rxBuffer := by
      rw [hx]
      exact hm.rxBuffer }

/-- What the callback passes to `perform_async` does not interfere with the end of the
request. -/
theorem pollRemoved_quiet (hc : (c.contexts h).hasCallback = true) (again : List Nat) :
    Quiet h (((c.storeResult h).curlStop h).note (.called h ((c.storeResult h).contexts h)))
      (c.pollRemoved h again) := by
  have hc' : ((c.storeResult h).contexts h).hasCallback = true := by
    rw [storeResult_self]
    exact hc
  let d := (c.storeResult h).note (.called h ((c.storeResult h).contexts h))
  have hq : Quiet h d (again.foldl performAsync d) := quiet_performAsyncs d again
  have hd : c.pollRemoved h again = ((again.foldl performAsync d).curlStop h).post (.pollRemove h) := by
    rw [pollRemoved, invokeCallback, if_pos hc']
  have hx : ∀ d : HttpClient, (d.curlStop h).contexts h =
      { d.contexts h with curlShared := false, curlPrivate := false } := fun d =>
    updateContext_self d h _
  rw [hd]
  refine Quiet.trans ?_ (quiet_post _ (fun hw => nomatch hw))
  exact { hq with
    context := by
      have hkept := congrArg
        (fun x : CallContext => { x with curlShared := false, curlPrivate := false }) hq.context
      rw [hx]
      exact hkept.trans (congrArg kept (hx (c.storeResult h)).symm)
    hasCallback := fun _ => by
      rw [hx]
      exact hq.hasCallback hc'
    posted := fun hp => by
      rw [hx]
      exact hq.posted hp }

theorem pollRemoved_matches {t : Transfer} (hm : Matches h t c)
    (hc : (c.contexts h).hasCallback = true) (again : List Nat) :
    Matches h { t with removed := true, called := true } (c.pollRemoved h again) :=
  ((stop_matches hm).note _).quiet (pollRemoved_quiet hc again)

theorem pollRemoved_log (hc : (c.contexts h).hasCallback = true) (again : List Nat) :
    (c.pollRemoved h again).log = c.log ++ [.called h ((c.storeResult h).contexts h)] := by
  have hc' : ((c.storeResult h).contexts h).hasCallback = true := by
    rw [storeResult_self]
    exact hc
  show ((c.storeResult h).invokeCallback h again).log = _
  unfold invokeCallback
  rw [if_pos hc', performAsyncs_log]
  rfl

/-- The callback sees what a new context would contain if nothing is left of earlier
transfers. -/
theorem Matches.fresh_iff {t : Transfer} (hm : Matches h t c) :
    ((c.storeResult h).contexts h).outcome =
        (t.fresh ((c.storeResult h).contexts h)).outcome ↔ t.earlier = ⟨[], []⟩ := by
  rw [storeResult_self]
  simp only [CallContext.outcome, Transfer.fresh, CallContext.ok, CallContext.new,
    Outcome.mk.injEq, hm.responseCode, hm.rxHeaders, hm.rxBuffer, true_and,
    List.append_left_eq_self]
  cases t.earlier with
  | mk headers body =>
    simp only [Answer.mk.injEq]
    exact ⟨fun hh => ⟨hh.2.1, hh.2.2⟩, fun hh => ⟨rfl, hh.1, hh.2⟩⟩

/-- libcurl stops watching a socket of the client: the request is called back. -/
theorem sockCb_removed (ha : Agrees h c) (hadd : c.curl.added h = true)
    (hp : (c.contexts h).curlPrivate = true) {s o : Nat} (hs : c.lookup s = some o)
    (again : List Nat) : Agrees h (c.sockCb h s .pollRemove again) := by
  have hphase := ha.here.added hadd
  have hremoved := (ha.here.curlPrivate.mp hp).2
  have hmem : s ∈ (transfer h c.log).opened := (lookup_isSome ha s).mp (by rw [hs]; rfl)
  let sock : Obs := .sock h s .pollRemove (c.contexts h).curlShared
  let d := (c.note sock).assign s (some o)
  have hd : c.sockCb h s .pollRemove again = d.pollRemoved h again :=
    sockCb_of_known hp hs .pollRemove again
  have hm : Matches h (transfer h c.log) d := by
    refine (ha.here.note sock).quiet (quiet_assign _ ?_)
    rintro p ⟨⟩
    exact lookup_eq_some ha hs
  have hlog : (d.pollRemoved h again).log =
      c.log ++ [sock, .called h ((d.storeResult h).contexts h)] := by
    rw [pollRemoved_log (hm.hasCallback hphase)]
    exact List.append_assoc c.log [sock] _
  have hnext : (transfer h c.log).next h sock = { transfer h c.log with removed := true } :=
    if_pos ⟨rfl, rfl, hmem⟩
  rw [hd]
  constructor
  · rw [hlog, transfer_append]
    simp only [List.foldl_cons, List.foldl_nil, hnext]
    simpa [Transfer.next] using pollRemoved_matches hm (hm.hasCallback hphase) again
  · rw [hlog]
    have hx := storeResult_self d h
    refine ha.judged.append ?_ ?_ (iff_of_true ⟨trivial, trivial, trivial⟩
      ⟨trivial, trivial, trivial⟩)
    · have hcalled : (transfer h c.log).called = false := ha.here.called.trans hremoved
      have hshared := ha.here.curlShared hp
      simp only [Monitor.accepts_cons, Monitor.accepts_nil, and_true]
      constructor
      · rintro ⟨-, hok⟩
        have hfin := (hok rfl).1
        rw [show (callsBackOnce h).next = Transfer.next h from rfl, hnext] at hfin
        exact ⟨fun _ _ => ⟨hremoved, fun _ => ⟨_, hfin⟩⟩, trivial⟩
      · rintro ⟨hok, -⟩
        obtain ⟨code, hcode⟩ := (hok rfl hmem).2 rfl
        refine ⟨fun _ _ => hshared, fun _ => ?_⟩
        rw [show (callsBackOnce h).next = Transfer.next h from rfl, hnext]
        have hresult : ((d.storeResult h).contexts h).httpResult = code := by
          rw [hx]
          exact (ha.here.finished code hcode).2
        exact ⟨hcode.trans (by rw [hresult]), hcalled⟩
    · have hfresh := hm.fresh_iff
      simp only [Monitor.accepts_cons, Monitor.accepts_nil, and_true]
      have hnl : (likeFresh h).next (transfer h c.log) sock =
          { transfer h c.log with removed := true } := hnext
      have hnf : (nothingEarlier h).next (transfer h c.log) sock =
          { transfer h c.log with removed := true } := hnext
      rw [hnl, hnf]
      exact ⟨fun hok => ⟨trivial, fun hh => hfresh.mp (hok.2 hh)⟩,
        fun hok => ⟨trivial, fun hh => hfresh.mpr (hok.2 hh)⟩⟩

theorem sockCb_agrees (ha : Agrees h c) {h' : Nat} (hadd : c.curl.added h' = true) (s : Nat)
    (what : Poll) (again : List Nat) : Agrees h (c.sockCb h' s what again) := by
  by_cases hh : h' = h
  · subst hh
    cases hp : (c.contexts h').curlPrivate with
    | false => exact sockCb_null ha hadd hp s what again
    | true =>
      cases hs : c.lookup s with
      | none =>
        rw [sockCb_of_unknown hp hs]
        refine note_sock ha hp (fun _ hmem => ?_)
        have := (lookup_isSome ha s).mpr hmem
        rw [hs] at this
        exact nomatch this
      | some o =>
        by_cases hw : what = .pollRemove
        · rw [hw]
          exact sockCb_removed ha hadd hp hs again
        · rw [sockCb_of_known hp hs]
          refine (note_sock ha hp (s := s) (fun hr => absurd hr hw)).quiet ?_
          refine (quiet_assign _ ?_).trans (quiet_polled _ again (fun hr => absurd hr hw))
          rintro p ⟨⟩
          exact lookup_eq_some ha hs
  · exact sockCb_other ha hh s what again

/-! ## Calls of libcurl -/

/-- `read_callback_avro_stream` reads on. -/
theorem quiet_read (c : HttpClient) (h' n : Nat) :
    Quiet h c (c.updateContext h' (fun x => { x with txUnread := x.txUnread.drop n })) := by
  by_cases hh : h' = h
  · subst hh
    have hx := updateContext_self c h' (fun x => { x with txUnread := x.txUnread.drop n })
    exact { Quiet.refl h' c with
      context := by
        rw [hx]
        rfl
      hasCallback := fun hc => by rwa [hx]
      posted := .inl
      log := ⟨[], (List.append_nil _).symm, fun _ ho => nomatch ho⟩ }
  · exact quiet_updateContext c _ hh

/-- A response code arrives while the transfer goes on. -/
theorem Agrees.response {h' code : Nat} (ha : Agrees h c) (hfin : c.curl.finished h' = false) :
    Agrees h (note { c with curl := c.curl.respond h' code } (.response h' code)) := by
  by_cases hh : h' = h
  · subst hh
    have hnext : (transfer h' c.log).next h' (.response h' code) =
        { transfer h' c.log with code := code } := if_pos rfl
    refine ha.accepted (o := .response h' code) rfl ?_ (Obs.Unjudged.approved trivial)
    rw [hnext]
    exact { ha.here with
      finished := fun code' hc =>
        absurd (hfin.symm.trans (ha.here.finished code' hc).1) Bool.false_ne_true
      responseCode := Function.update_self _ _ _ }
  · have hq : Quiet h c { c with curl := c.curl.respond h' code } :=
      { Quiet.refl h c with
        assigned := fun _ _ => .inl
        responseCode := Function.update_of_ne (Ne.symm hh) _ _ }
    exact ha.quiet (hq.trans (quiet_note (o := .response h' code) _ hh))

/-- The callbacks that receive an answer for `h'`. -/
theorem Agrees.receive {h' : Nat} {o : Obs} (ha : Agrees h c) (headers : List Bytes) (rx : Bytes)
    (a : Answer) (hother : h' ≠ h → Neutral h o)
    (hself : h' = h → Approved h (transfer h c.log) o ∧
      (transfer h c.log).next h o = { transfer h c.log with answer := a } ∧
      headers = (transfer h c.log).earlier.headers ++ a.headers ∧
      rx = (transfer h c.log).earlier.body ++ a.body) :
    Agrees h ((c.updateContext h' (fun x =>
      { x with rxHeaders := headers, rxBuffer := rx })).note o) := by
  by_cases hh : h' = h
  · subst hh
    obtain ⟨hok, hnext, hheaders, hrx⟩ := hself rfl
    have hx := updateContext_self c h' (fun x => { x with rxHeaders := headers, rxBuffer := rx })
    refine ha.accepted (o := o) rfl ?_ hok
    rw [hnext]
    exact { ha.here with
      curlPrivate := by
        rw [note, hx]
        exact ha.here.curlPrivate
      curlShared := fun hp => by
        rw [note, hx] at hp ⊢
        exact ha.here.curlShared hp
      posted := fun hp => by
        rw [note, hx]
        exact ha.here.posted hp
      hasCallback := fun hp => by
        rw [note, hx]
        exact ha.here.hasCallback hp
      curlDone := by
        rw [note, hx]
        exact ha.here.curlDone
      rxHeaders := by
        rw [note, hx]
        exact hheaders
      rxBuffer := by
        rw [note, hx]
        exact hrx }
  · exact ha.quiet ((quiet_updateContext c _ hh).trans (quiet_note _ (hother hh)))

/-- `parse_headers`. -/
theorem Agrees.header (ha : Agrees h c) (h' : Nat) (line : Bytes) :
    Agrees h ((c.updateContext h' (fun x =>
      { x with rxHeaders := x.rxHeaders ++ [line] })).note (.header h' line)) := by
  refine ha.receive (o := .header h' line) _ _
    ⟨(transfer h c.log).answer.headers ++ [line], (transfer h c.log).answer.body⟩ id ?_
  rintro rfl
  refine ⟨Obs.Unjudged.approved trivial, if_pos rfl, ?_, ha.here.rxBuffer⟩
  rw [ha.here.rxHeaders, List.append_assoc]

/-- `write_callback_avro_stream`. -/
theorem Agrees.body (ha : Agrees h c) (h' : Nat) (data : Bytes) :
    Agrees h ((c.updateContext h' (fun x =>
      { x with rxBuffer := x.rxBuffer ++ data })).note (.body h' data)) := by
  refine ha.receive (o := .body h' data) _ _
    ⟨(transfer h c.log).answer.headers, (transfer h c.log).answer.body ++ data⟩ id ?_
  rintro rfl
  refine ⟨Obs.Unjudged.approved trivial, if_pos rfl, ha.here.rxHeaders, ?_⟩
  rw [ha.here.rxBuffer, List.append_assoc]

theorem Agrees.finish {h' : Nat} (ha : Agrees h c) (hadd : c.curl.added h' = true) :
    Agrees h (note { c with curl := c.curl.finish h' }
      (.finished h' (c.curl.responseCode h'))) := by
  by_cases hh : h' = h
  · subst hh
    have hphase := ha.here.added hadd
    have hnext : (transfer h' c.log).next h' (.finished h' (c.curl.responseCode h')) =
        { transfer h' c.log with phase := .finished (c.curl.responseCode h') } := if_pos rfl
    refine ha.accepted (o := .finished h' (c.curl.responseCode h')) rfl ?_
      (Obs.Unjudged.approved trivial)
    rw [hnext]
    exact { ha.here with
      curlPrivate := ha.here.curlPrivate.trans (by simp [hphase])
      added := fun _ hi => nomatch hi
      finished := fun code hc => by
        obtain rfl := Phase.finished.inj hc
        exact ⟨Function.update_self _ _ _, rfl⟩
      hasCallback := fun _ => ha.here.hasCallback hphase }
  · have hq : Quiet h c { c with curl := c.curl.finish h' } :=
      { Quiet.refl h c with
        assigned := fun _ _ => .inl
        finished := Function.update_of_ne (Ne.symm hh) _ _ }
    have hn : Neutral h (.finished h' (c.curl.responseCode h')) := hh
    exact ha.quiet (hq.trans (quiet_note _ hn))

/-- What libcurl can do in the state `c`, and the state it leaves. -/
inductive Acted (c : HttpClient) : CurlAct → HttpClient → Prop where
  | opensocket (supported opened : Bool) (s : Nat) (hfree : c.descriptorOpen s = false) :
      Acted c (.opensocket supported opened s) (c.opensocketCb supported opened s)
  | closesocket (s : Nat) : Acted c (.closesocket s) (c.closesocketCb s)
  | sockCb (h s : Nat) (what : Poll) (again : List Nat) (hadd : c.curl.added h = true) :
      Acted c (.sockCb h s what again)
        (if what = .pollRemove then (c.sockCb h s what again).assign s none
          else c.sockCb h s what again)
  | multiTimer (ms : Int) : Acted c (.multiTimer ms) (c.multiTimerCb ms)
  | response (h code : Nat) (hb : c.curl.busy h = true) :
      Acted c (.response h code) (note { c with curl := c.curl.respond h code } (.response h code))
  | read (h n : Nat) (hb : c.curl.busy h = true) :
      Acted c (.read h n) (c.updateContext h (fun x => { x with txUnread := x.txUnread.drop n }))
  | header (h : Nat) (line : Bytes) (hb : c.curl.busy h = true) :
      Acted c (.header h line)
        ((c.updateContext h (fun x => { x with rxHeaders := x.rxHeaders ++ [line] })).note
          (.header h line))
  | write (h : Nat) (data : Bytes) (hb : c.curl.busy h = true) :
      Acted c (.write h data)
        ((c.updateContext h (fun x => { x with rxBuffer := x.rxBuffer ++ data })).note
          (.body h data))
  | finish (h : Nat) (hb : c.curl.busy h = true) :
      Acted c (.finish h)
        (note { c with curl := c.curl.finish h } (.finished h (c.curl.responseCode h)))

theorem acted_of_act {a : CurlAct} (hact : c.act a = some d) : Acted c a d := by
  -- all of these are guarded in the same way
  have hguard : ∀ {b : Bool} {u : HttpClient}, (if b then some u else none) = some d →
      b = true ∧ u = d := by
    intro b u hg
    obtain ⟨hb, hd⟩ := Option.ite_none_right_eq_some.mp hg
    exact ⟨hb, Option.some.inj hd⟩
  cases a with
  | opensocket supported opened s =>
    obtain ⟨hfree, hd⟩ := Option.ite_none_left_eq_some.mp hact
    obtain rfl := Option.some.inj hd
    exact .opensocket supported opened s (Bool.not_eq_true _ ▸ hfree)
  | closesocket s =>
    obtain rfl := Option.some.inj hact
    exact .closesocket s
  | sockCb h s what again =>
    obtain ⟨hadd, rfl⟩ := hguard hact
    exact .sockCb h s what again hadd
  | multiTimer ms =>
    obtain rfl := Option.some.inj hact
    exact .multiTimer ms
  | response h code =>
    obtain ⟨hb, rfl⟩ := hguard hact
    exact .response h code hb
  | read h n =>
    obtain ⟨hb, rfl⟩ := hguard hact
    exact .read h n hb
  | header h line =>
    obtain ⟨hb, rfl⟩ := hguard hact
    exact .header h line hb
  | write h data =>
    obtain ⟨hb, rfl⟩ := hguard hact
    exact .write h data hb
  | finish h =>
    obtain ⟨hb, rfl⟩ := hguard hact
    exact .finish h hb

theorem act_agrees (ha : Agrees h c) {a : CurlAct} (hact : c.act a = some d) : Agrees h d := by
  cases acted_of_act hact with
  | opensocket supported opened s => exact opensocketCb_agrees ha supported opened s
  | closesocket s => exact closesocketCb_agrees ha s
  | sockCb h' s what again hadd =>
    have hd := sockCb_agrees ha hadd s what again
    split
    · exact hd.quiet (quiet_assign (o := none) _ (fun _ hp => nomatch hp))
    · exact hd
  | multiTimer ms => exact ha.quiet (quiet_multiTimerCb c ms)
  | response h' code hb =>
    have hfin := (Bool.and_eq_true_iff.mp hb).2
    exact ha.response (by simpa using hfin)
  | read h' n => exact ha.quiet (quiet_read c h' n)
  | header h' line => exact ha.header h' line
  | write h' data => exact ha.body h' data
  | finish h' hb => exact ha.finish (Bool.and_eq_true_iff.mp hb).1

theorem acts_agrees {as : List CurlAct} (ha : Agrees h c) (hacts : c.acts as = some d) :
    Agrees h d := by
  induction as generalizing c with
  | nil =>
    obtain rfl := Option.some.inj hacts
    exact ha
  | cons a as ih =>
    rw [acts] at hacts
    split at hacts
    · obtain rfl := Option.some.inj hacts
      exact ha
    · obtain ⟨e, he, hd⟩ := Option.bind_eq_some_iff.mp hacts
      exact ih (act_agrees ha he) hd

theorem noActs_eq_some {as : List CurlAct} (hn : c.noActs as = some d) : d = c ∧ as = [] := by
  unfold noActs at hn
  split at hn
  · next has => exact ⟨(Option.some.inj hn).symm, has⟩
  · exact nomatch hn

/-! ## Handlers -/

/-- How `socket_rx_cb` and `socket_tx_cb` go on. -/
inductive SocketCalled (c : HttpClient) (w : Watch) (e : ErrorCode) (as : List CurlAct) :
    HttpClient → Prop where
  | ignored (hskip : ¬ (e = .success ∧ (w.output ∨ (c.contexts w.context).curlDone = false)))
      (has : as = []) : SocketCalled c w e as c
  | dangling (he : e = .success) (hw : c.sockets w.socket = none) (has : as = []) :
      SocketCalled c w e as (c.crash .danglingSocket)
  | stopped (b : HttpClient) (he : e = .success) (hb : c.acts as = some b)
      (hstop : b.fault.isSome ∨ w.output ∨ (b.contexts w.context).curlDone) :
      SocketCalled c w e as b
  | watched (b : HttpClient) (he : e = .success) (hb : c.acts as = some b)
      (hgo : ¬ (b.fault.isSome ∨ w.output ∨ (b.contexts w.context).curlDone)) :
      SocketCalled c w e as (b.watch w.socket w.context false)

theorem socketCalled_of_socketCb {w : Watch} {e : ErrorCode} {as : List CurlAct}
    (hd : c.socketCb w e as = some d) : SocketCalled c w e as d := by
  unfold socketCb at hd
  split at hd
  · next hcalled =>
    split at hd
    · next hw =>
      obtain ⟨rfl, has⟩ := noActs_eq_some hd
      exact .dangling hcalled.1 hw has
    · obtain ⟨b, hb, rfl⟩ := Option.map_eq_some_iff.mp hd
      split
      · next hstop => exact .stopped b hcalled.1 hb hstop
      · next hgo => exact .watched b hcalled.1 hb hgo
  · next hskip =>
    obtain ⟨rfl, has⟩ := noActs_eq_some hd
    exact .ignored hskip has

theorem socketCb_agrees {w : Watch} {e : ErrorCode} {as : List CurlAct} (ha : Agrees h c)
    (hd : c.socketCb w e as = some d) : Agrees h d := by
  cases socketCalled_of_socketCb hd with
  | ignored hskip has => exact ha
  | dangling he hw has => exact ha.quiet (quiet_crash c _)
  | stopped b he hb hstop => exact acts_agrees ha hb
  | watched b he hb hgo => exact (acts_agrees ha hb).quiet (quiet_watch b _ _ _)

/-- How `_poll_remove` goes on. -/
inductive PollRemoved (c : HttpClient) (h : Nat) (as : List CurlAct) : HttpClient → Prop where
  | unknown (has : as = []) : PollRemoved c h as c
  | crashed (b : HttpClient) (hb : c.acts as = some b) (hf : b.fault.isSome) : PollRemoved c h as b
  | removed (b : HttpClient) (hb : c.acts as = some b) (hf : b.fault = none) :
      PollRemoved c h as (note { b with curl := b.curl.remove h } (.removed h))

theorem pollRemoved_of_pollRemove {as : List CurlAct} (hd : c.pollRemove h as = some d) :
    PollRemoved c h as d := by
  unfold pollRemove at hd
  split at hd
  · obtain ⟨b, hb, rfl⟩ := Option.map_eq_some_iff.mp hd
    split
    · next hf => exact .crashed b hb hf
    · next hf => exact .removed b hb (Option.not_isSome_iff_eq_none.mp hf)
  · obtain ⟨rfl, has⟩ := noActs_eq_some hd
    exact .unknown has

theorem pollRemove_agrees {h' : Nat} {as : List CurlAct} (ha : Agrees h c)
    (hd : c.pollRemove h' as = some d) : Agrees h d := by
  cases pollRemoved_of_pollRemove hd with
  | unknown has => exact ha
  | crashed b hb hf => exact acts_agrees ha hb
  | removed b hb hf =>
    have hq : Quiet h b { b with curl := b.curl.remove h' } :=
      { Quiet.refl h b with
        assigned := fun _ _ => .inl
        added := fun hadd => by
          by_cases hh : h = h'
          · subst hh
            exact nomatch (Function.update_self h _ b.curl.added).symm.trans hadd
          · exact (Function.update_of_ne hh _ _).symm.trans hadd }
    exact (acts_agrees ha hb).quiet (hq.trans (quiet_note (o := .removed h') _ trivial))

/-- How `_perform` goes on. -/
inductive Performed (c : HttpClient) (h : Nat) (as : List CurlAct) : HttpClient → Prop where
  | started (d : HttpClient)
      (hd : (note { (c.curlStart h).setPrivate h with curl := c.curl.add h } (.started h)).acts as =
        some d) : Performed c h as d
  | refused (has : as = []) : Performed c h as (((c.curlStart h).setPrivate h).note (.refused h))
  | unsupported (has : as = []) : Performed c h as ((c.curlStart h).crash .unsupportedMethod)

theorem performed_of_perform {accepted : Bool} {as : List CurlAct}
    (hd : c.perform h accepted as = some d) : Performed c h as d := by
  simp only [perform] at hd
  split at hd
  · split at hd
    · exact .started d hd
    · obtain ⟨rfl, has⟩ := noActs_eq_some hd
      exact .refused has
  · obtain ⟨rfl, has⟩ := noActs_eq_some hd
    exact .unsupported has

/-- The context that `_perform` gives to libcurl. -/
theorem setPrivate_curlStart (c : HttpClient) (h : Nat) :
    ((c.curlStart h).setPrivate h).contexts h = { c.contexts h with
      curlShared := true
      txUnread := (c.contexts h).txBuffer
      curlPrivate := true } := by
  simp only [setPrivate, curlStart, updateContext_self]

theorem begin_matches {t : Transfer} {phase : Phase} (hm : Matches h t c)
    (hcb : (c.contexts h).hasCallback = true) (hidle : phase ≠ .idle)
    (hfin : ∀ code, phase ≠ .finished code) :
    Matches h (t.begin phase) ((c.curlStart h).setPrivate h) := by
  have hx := setPrivate_curlStart c h
  exact { hm with
    curlPrivate := by
      rw [hx]
      exact iff_of_true rfl ⟨hidle, rfl⟩
    curlShared := fun _ => by rw [hx]
    added := fun _ => hidle
    finished := fun code hc => absurd hc (hfin code)
    posted := fun _ => by rwa [hx]
    hasCallback := fun _ => by rwa [hx]
    called := rfl
    curlDone := by
      rw [hx]
      exact hm.curlDone
    rxHeaders := by
      rw [hx]
      exact hm.rxHeaders
    rxBuffer := by
      rw [hx]
      exact hm.rxBuffer }

/-- Another request is given to libcurl. -/
theorem quiet_setPrivate {h' : Nat} (c : HttpClient) (hh : h' ≠ h) :
    Quiet h c ((c.curlStart h').setPrivate h') :=
  (quiet_updateContext c _ hh).trans (quiet_updateContext _ _ hh)

theorem started_agrees {h' : Nat} (ha : Agrees h c)
    (hcb : h' = h → (c.contexts h).hasCallback = true) :
    Agrees h (note { (c.curlStart h').setPrivate h' with curl := c.curl.add h' } (.started h')) := by
  by_cases hh : h' = h
  · subst hh
    refine ha.accepted (o := .started h') rfl ?_ (Obs.Unjudged.approved trivial)
    rw [show (transfer h' c.log).next h' (.started h') = (transfer h' c.log).start from
      if_pos rfl]
    have hm : Matches h' ((transfer h' c.log).begin .running) ((c.curlStart h').setPrivate h') :=
      begin_matches ha.here (hcb rfl) (fun hp => nomatch hp) (fun _ hp => nomatch hp)
    exact { hm with
      added := fun _ hi => nomatch hi
      finished := fun _ hc => nomatch hc
      responseCode := Function.update_self _ _ _
      rxHeaders := hm.rxHeaders.trans (List.append_nil _).symm
      rxBuffer := hm.rxBuffer.trans (List.append_nil _).symm }
  · have hq := quiet_setPrivate c hh
    have hadd : Quiet h ((c.curlStart h').setPrivate h')
        { (c.curlStart h').setPrivate h' with curl := c.curl.add h' } :=
      { Quiet.refl h ((c.curlStart h').setPrivate h') with
        assigned := fun _ _ => .inl
        added := fun hc => (Function.update_of_ne (Ne.symm hh) _ _).symm.trans hc
        finished := Function.update_of_ne (Ne.symm hh) _ _
        responseCode := Function.update_of_ne (Ne.symm hh) _ _ }
    exact ha.quiet ((hq.trans hadd).trans (quiet_note (o := .started h') _ hh))

theorem refused_agrees {h' : Nat} (ha : Agrees h c)
    (hcb : h' = h → (c.contexts h).hasCallback = true) :
    Agrees h (((c.curlStart h').setPrivate h').note (.refused h')) := by
  by_cases hh : h' = h
  · subst hh
    refine ha.accepted (o := .refused h') rfl ?_ (Obs.Unjudged.approved trivial)
    rw [show (transfer h' c.log).next h' (.refused h') = (transfer h' c.log).begin .refused from
      if_pos rfl]
    have hm : Matches h' ((transfer h' c.log).begin .refused) ((c.curlStart h').setPrivate h') :=
      begin_matches ha.here (hcb rfl) (fun hp => nomatch hp) (fun _ hp => nomatch hp)
    exact hm.note _
  · exact ha.quiet ((quiet_setPrivate c hh).trans (quiet_note (o := .refused h') _ hh))

theorem curlStart_agrees (ha : Agrees h c) (h' : Nat) : Agrees h (c.curlStart h') := by
  by_cases hh : h' = h
  · subst hh
    have hx : (c.curlStart h').contexts h' = { c.contexts h' with
        curlShared := true, txUnread := (c.contexts h').txBuffer } := updateContext_self c h' _
    refine ⟨{ ha.here with
      curlPrivate := ?_
      curlShared := fun _ => by rw [hx]
      posted := fun hp => ?_
      hasCallback := fun hp => ?_
      curlDone := ?_
      rxHeaders := ?_
      rxBuffer := ?_ }, ha.judged⟩
    · rw [hx]
      exact ha.here.curlPrivate
    · rw [hx]
      exact ha.here.posted hp
    · rw [hx]
      exact ha.here.hasCallback hp
    · rw [hx]
      exact ha.here.curlDone
    · rw [hx]
      exact ha.here.rxHeaders
    · rw [hx]
      exact ha.here.rxBuffer
  · exact ha.quiet (quiet_updateContext c _ hh)

theorem perform_agrees {h' : Nat} {accepted : Bool} {as : List CurlAct} (ha : Agrees h c)
    (hcb : h' = h → (c.contexts h).hasCallback = true) (hd : c.perform h' accepted as = some d) :
    Agrees h d := by
  cases performed_of_perform hd with
  | started d hacts => exact acts_agrees (started_agrees ha hcb) hacts
  | refused has => exact refused_agrees ha hcb
  | unsupported has => exact (curlStart_agrees ha h').quiet (quiet_crash _ _)

/-! ## Steps and runs -/

/-- What may happen next in the state `c`, and what the client then does. -/
inductive Stepped (c : HttpClient) : Event → HttpClient → Prop where
  | performAsync (h : Nat) : Stepped c (.performAsync h) (c.performAsync h)
  | ready (i : Nat) (w : Watch) (hw : c.watches[i]? = some w) :
      Stepped c (.ready i) (post { c with watches := c.watches.eraseIdx i } (.socketCb w .success))
  | expire (hp : c.timer.pending ≠ []) : Stepped c .expire { c with timer := c.timer.expire }
  | timeout (i : Nat) (as : List CurlAct) (x : Completion Unit) (timer : DeadlineTimer Unit)
      (d : HttpClient) (hx : c.timer.dequeue i = some (x, timer)) (hcode : x.code = .success)
      (hd : (timerCb { c with timer := timer } x.code).acts as = some d) :
      Stepped c (.timer i as) d
  | aborted (i : Nat) (x : Completion Unit) (timer : DeadlineTimer Unit)
      (hx : c.timer.dequeue i = some (x, timer)) (hcode : x.code ≠ .success) :
      Stepped c (.timer i []) (timerCb { c with timer := timer } x.code)
  | run (i : Nat) (accepted : Bool) (as : List CurlAct) (x : Work) (d : HttpClient)
      (hx : c.queue[i]? = some x)
      (hd : HttpClient.run { c with queue := c.queue.eraseIdx i } accepted as x = some d) :
      Stepped c (.run i accepted as) d

theorem stepped_of_step {ev : Event} (hd : c.step ev = some d) :
    c.fault = none ∧ Stepped c ev d := by
  unfold step at hd
  split at hd
  · cases hd
  · next hf =>
    refine ⟨Option.not_isSome_iff_eq_none.mp hf, ?_⟩
    cases ev with
    | performAsync h =>
      obtain rfl := Option.some.inj hd
      exact .performAsync h
    | ready i =>
      obtain ⟨w, hw, rfl⟩ := Option.map_eq_some_iff.mp hd
      exact .ready i w hw
    | expire =>
      obtain ⟨hp, hd⟩ := Option.ite_none_right_eq_some.mp hd
      obtain rfl := Option.some.inj hd
      exact .expire hp
    | timer i as =>
      simp only at hd
      split at hd
      · next x timer hx =>
        split at hd
        · next hcode => exact .timeout i as x timer d hx hcode hd
        · next hcode =>
          obtain ⟨rfl, rfl⟩ := noActs_eq_some hd
          exact .aborted i x timer hx hcode
      · cases hd
    | run i accepted as =>
      simp only at hd
      split at hd
      · next x hx => exact .run i accepted as x d hx hd
      · cases hd

/-- A program that has crashed goes nowhere. -/
theorem fault_of_runs {es : List Event} (hr : Runs.runs step c es = some d) (hf : d.fault = none) :
    c.fault = none := by
  have hall := (Runs.throughout_iff_last (Q := fun c => c.fault = none)
    (fun _ _ _ hs _ => (stepped_of_step hs).1) hr).mpr hf
  exact hall.head

/-- `socket_rx_cb` goes on as for a new context unless the request was called back before
it was sent. -/
theorem noteReadable_agrees (ha : Agrees h c) (w : Watch) (e : ErrorCode) :
    Agrees h (c.noteReadable w e) := by
  unfold noteReadable
  split
  · by_cases hh : w.context = h
    · subst hh
      constructor
      · rw [note, transfer_append]
        exact { ha.here with }
      · refine ha.judged.append (iff_of_true ⟨trivial, trivial⟩ ⟨trivial, trivial⟩)
          (iff_of_true ⟨trivial, trivial⟩ ⟨trivial, trivial⟩) ?_
        simp only [Monitor.accepts_cons, Monitor.accepts_nil, and_true, readLikeFresh, firstUse,
          ha.here.curlDone, true_imp_iff]
        cases (transfer w.context c.log).called <;>
          cases (transfer w.context c.log).calledBefore <;> decide
    · exact ha.quiet (quiet_note (o := .readable w.context _) c hh)
  · exact ha

theorem run_agrees {w : Work} {accepted : Bool} {as : List CurlAct} (ha : Agrees h c)
    (hcb : w = .perform h → (c.contexts h).hasCallback = true)
    (hd : c.run accepted as w = some d) : Agrees h d := by
  cases w with
  | perform h' => exact perform_agrees ha (fun hh => hcb (hh ▸ rfl)) hd
  | pollRemove h' => exact pollRemove_agrees ha hd
  | deleteSocket o =>
    obtain ⟨rfl, -⟩ := noActs_eq_some hd
    exact ha.quiet (.aside rfl id rfl rfl rfl)
  | socketCb w e => exact socketCb_agrees (noteReadable_agrees ha w e) hd

theorem step_agrees {ev : Event} (ha : Agrees h c) (hd : c.step ev = some d) : Agrees h d := by
  cases (stepped_of_step hd).2 with
  | performAsync h' => exact ha.quiet (quiet_performAsync c h')
  | ready i w hw =>
    refine ha.quiet (Quiet.trans ?_ (quiet_post _ Work.noConfusion))
    exact .aside rfl id rfl rfl rfl
  | expire hp => exact ha.quiet (.aside rfl id rfl rfl rfl)
  | timeout i as x timer d hx hcode hacts =>
    have hq : Quiet h c { c with timer := timer } := .aside rfl id rfl rfl rfl
    exact acts_agrees (ha.quiet (hq.trans (quiet_timerCb _ x.code))) hacts
  | aborted i x timer hx hcode =>
    have hq : Quiet h c { c with timer := timer } := .aside rfl id rfl rfl rfl
    exact ha.quiet (hq.trans (quiet_timerCb _ x.code))
  | run i accepted as x d hx hrun =>
    have hq : Quiet h c { c with queue := c.queue.eraseIdx i } :=
      .aside rfl (fun hp => List.mem_of_mem_eraseIdx hp) rfl rfl rfl
    refine run_agrees (ha.quiet hq) (fun hp => ha.here.posted ?_) hrun
    rw [← hp]
    exact List.mem_of_getElem? hx

/-- The history of every request is right at the end of every run. -/
theorem runs_agrees {method : Nat → Nat} {content : Nat → Bytes} {es : List Event}
    (hr : Runs.runs step (new method content) es = some c) (h : Nat) : Agrees h c :=
  Runs.invariant (I := Agrees h) (D := fun _ _ => True) (fun _ _ _ ha _ => step_agrees ha)
    (agrees_new method content h) (Runs.along_of_forall (fun _ _ => trivial) _ _) hr

end HttpClient

end CsiHttp.Client
