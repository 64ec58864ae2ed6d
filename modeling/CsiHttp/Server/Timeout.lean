import CsiHttp.Lib.Runs
import CsiHttp.Server.Closing
import CsiHttp.Server.TableParser

/-!
# Timeouts of `http_connection`

One timer guards every phase of a connection, and the completion that ends a phase cancels
it. A deadline that has passed by then has queued its completion already, which the cancel no
longer reaches: `handle_timer` then ends a connection whose next phase is under way.
-/
namespace CsiHttp.Server

open Lib Lib.Text Lib.Runs
open Lib.DeadlineTimer (Evolves Dated Past evolves_cancel evolves_arm past_cancel)

/-- A completion of an operation of the socket, or of a deferred reply. -/
def Event.isCompletion : Event → Bool
  | .read _ _ _ => true
  | .write _ _ => true
  | .asyncReplyDone => true
  | _ => false

/-- A completion that has cancelled or re-armed the timer. -/
def Disarms {State : Type} (s : Session State) (ev : Event) (t : Session State) : Prop :=
  ev.isCompletion = true ∧ t.timer.epoch ≠ s.timer.epoch

/-- If the deadline of a wait has ended the connection, the wait was armed after epoch `n`. -/
def ArmedAfter {State : Type} (n : Nat) (s : Session State) (ev : Event) (t : Session State) :
    Prop :=
  ∀ i w, ev = .timer i → t.log = s.log ++ [.timedOut w] → n < w.epoch

/-! ## What a handler does to the timer -/

section Sessions

variable {State : Type} {E : Externals} {A : AsyncReply State}

theorem evolves_of_eq {m m' : DeadlineTimer Waiter} (h : m' = m) : Evolves m m' := h ▸ .refl m

structure EvolvesAsync (A : AsyncReply State) : Prop where
  wait : ∀ s, Evolves s.timer (A.waitForAsyncReply s).timer
  notify : ∀ s, Evolves s.timer (A.notifyAsyncReplyDone s).timer

theorem evolves_kept :
    Session.KeptBySending E (fun s t : Session State => Evolves s.timer t.timer) where
  refl _ := .refl _
  trans := Evolves.trans
  crash _ _ := .refl _
  setReply _ _ := .refl _
  requestId _ _ := .refl _
  idLogged _ := .refl _
  methodLogged _ := .refl _
  replying _ := .refl _
  setWaiting _ _ := .refl _
  replied _ _ _ := .refl _

theorem evolves_handlerOp (hA : EvolvesAsync A) (s : Session State) (op : HandlerOp) :
    Evolves s.timer (s.handlerOp E A op).timer :=
  evolves_kept.handlerOp hA.wait hA.notify s (fun _ _ => .refl _)

theorem evolves_dispatch (hA : EvolvesAsync A) {prepare : Session State → Session State}
    (hp : ∀ s, (prepare s).timer = s.timer) (ops : List HandlerOp) (s : Session State) :
    Evolves s.timer (s.dispatch E A prepare ops).timer := by
  have hstart : Evolves s.timer ((prepare s).logRequest E).timer := evolves_of_eq (hp s)
  refine hstart.trans (evolves_kept.handled hA.wait hA.notify _ ?_ ?_ ?_)
  · exact fun _ _ _ => .refl _
  · exact fun _ => .refl _
  · exact fun _ => evolves_arm _ _ _

end Sessions

theorem evolves_readSucceeded {E : Externals} {A : AsyncReply E.parser.State} (hA : EvolvesAsync A)
    {prepare : Session E.parser.State → Session E.parser.State}
    (hp : ∀ s, (prepare s).timer = s.timer) (bytes : Bytes) (ops : List HandlerOp)
    (s : Session E.parser.State) : Evolves s.timer (s.readSucceeded E A prepare bytes ops).timer := by
  unfold Session.readSucceeded
  split
  · exact .refl _
  · dsimp only
    split
    · exact evolves_kept.badRequest ((s.parse E bytes).note (.parsed _ _))
    · split
      · exact evolves_dispatch hA hp ops ((s.parse E bytes).note (.parsed _ _))
      · exact evolves_arm _ _ _

namespace HttpConnection

variable {E : Externals} {s t u : Session E.parser.State} {ev : Event} {es : List Event} {n : Nat}

theorem evolvesAsync {State : Type} (E : Externals) : EvolvesAsync (async E : AsyncReply State) :=
  ⟨fun _ => evolves_arm _ _ _, fun _ => .refl _⟩

/-- The completions whose handlers cancel the timer. -/
def CancelsTimer {State : Type} (s : Session State) : Event → Prop
  | .read e _ _ => e ≠ .operationAborted
  | .write _ e => e = .success ∨ (e = .failure ∧ s.conn.keepAlive = false)
  | .asyncReplyDone => True
  | _ => False

instance {State : Type} (s : Session State) : (ev : Event) → Decidable (CancelsTimer s ev)
  | .read e _ _ => inferInstanceAs (Decidable (e ≠ .operationAborted))
  | .write _ e => inferInstanceAs (Decidable (e = .success ∨ (e = .failure ∧ s.conn.keepAlive = false)))
  | .asyncReplyDone => isTrue trivial
  | .handshake _ | .expire | .timer _ | .handler _ => isFalse id

/-- No completion cancels the timer when its deadline has passed and `handle_timer` is queued. -/
def Punctual {State : Type} (s : Session State) (ev : Event) : Prop :=
  CancelsTimer s ev → ∀ c ∈ s.timer.queued, c.code ≠ .success

instance {State : Type} (s : Session State) (ev : Event) : Decidable (Punctual s ev) :=
  inferInstanceAs (Decidable (_ → _))

/-- What an event means for the timer. -/
inductive TimerStep (s : Session E.parser.State) (ev : Event) (t : Session E.parser.State) : Prop
  where
  | expired (hev : ev = .expire) (ht : t.timer = s.timer.expire)
  | ran (i : Nat) (c : Completion Waiter) (hev : ev = .timer i)
      (hd : s.timer.dequeue i = some (c, t.timer))
      (hlog : t.log = s.log ++ if c.code = .success then [.timedOut c.wait] else [])
  | cancelled (hc : CancelsTimer s ev) (ht : Evolves s.timer.cancel t.timer)
  | other (hc : ¬ CancelsTimer s ev) (hev : ∀ i, ev ≠ .timer i) (ht : Evolves s.timer t.timer)
      (hepoch : ev.isCompletion = true → t.timer.epoch = s.timer.epoch)

theorem timerStep_write (i : Nat) (e : ErrorCode) :
    TimerStep s (.write i e) (handleWrite e { s with writes := s.writes.eraseIdx i }) := by
  cases e with
  | operationAborted =>
    refine .other ?_ (fun _ => Event.noConfusion) (.refl _) (fun _ => rfl)
    rintro (h | ⟨h, -⟩) <;> cases h
  | success =>
    refine .cancelled (Or.inl rfl) ?_
    unfold handleWrite
    dsimp only
    split
    · exact evolves_arm _ _ _
    · exact .refl _
  | failure =>
    unfold handleWrite
    dsimp only
    split
    · rename_i hk
      refine .other ?_ (fun _ => Event.noConfusion) (.refl _) (fun _ => rfl)
      rintro (h | ⟨-, h⟩)
      · cases h
      · rw [hk] at h
        cases h
    · rename_i hk
      exact .cancelled (Or.inr ⟨rfl, Bool.not_eq_true _ ▸ hk⟩) (.refl _)

theorem step_timer (hs : step E s ev = some t) : TimerStep s ev t := by
  cases (Session.stepped_of_step hs).2 with
  | handshake e hh => exact .other id (fun _ => Event.noConfusion) (.refl _) (fun _ => rfl)
  | read e bytes ops hr hb =>
    cases e with
    | operationAborted =>
      exact .other (fun h => h rfl) (fun _ => Event.noConfusion) (.refl _) (fun _ => rfl)
    | failure => exact .cancelled ErrorCode.noConfusion (.refl _)
    | success =>
      refine .cancelled ErrorCode.noConfusion ?_
      exact evolves_readSucceeded (evolvesAsync E) (fun _ => rfl) bytes ops
        ({ s with reads := s.reads - 1 } : Session E.parser.State).cancelTimer
  | write i e hi => exact timerStep_write i e
  | expire hp => exact .expired rfl rfl
  | timer i c timer hd =>
    have hrun : (handleTimer c.wait c.code { s with timer := timer }).timer = timer ∧
        (handleTimer c.wait c.code { s with timer := timer }).log =
          s.log ++ if c.code = .success then [.timedOut c.wait] else [] := by
      unfold handleTimer
      cases hcode : c.code with
      | success => exact ⟨rfl, rfl⟩
      | operationAborted | failure => exact ⟨rfl, (List.append_nil _).symm⟩
    refine .ran i c rfl ?_ hrun.2
    rw [hd]
    exact congrArg (fun x => some (c, x)) hrun.1.symm
  | asyncReplyDone hp => exact .cancelled trivial (evolves_of_eq (sendReply_timer E _))
  | handler op hl =>
    exact .other id (fun _ => Event.noConfusion) (evolves_handlerOp (evolvesAsync E) s op)
      (fun h => Bool.noConfusion h)

/-- The handlers that cancel the timer are the completions that change its epoch. -/
theorem disarms_iff (hs : step E s ev = some t) : Disarms s ev t ↔ CancelsTimer s ev := by
  unfold Disarms
  cases step_timer hs with
  | expired hev ht =>
    subst hev
    exact iff_of_false (fun h => Bool.noConfusion h.1) id
  | ran i c hev hd hlog =>
    subst hev
    exact iff_of_false (fun h => Bool.noConfusion h.1) id
  | cancelled hc ht =>
    have hlt : s.timer.epoch + 1 ≤ t.timer.epoch := ht.epoch
    refine iff_of_true ⟨?_, by omega⟩ hc
    cases ev with
    | read _ _ _ | write _ _ | asyncReplyDone => rfl
    | handshake _ | expire | timer _ | handler _ => exact absurd hc id
  | other hc hev ht hepoch => exact iff_of_false (fun h => h.2 (hepoch h.1)) hc

/-- A cancel that finds no deadline passed leaves every earlier wait behind. -/
theorem step_cancels (hp : Punctual s ev) (hc : CancelsTimer s ev) (hs : step E s ev = some t) :
    t.timer.Past s.timer.epoch := by
  cases step_timer hs with
  | expired hev ht =>
    subst hev
    exact absurd hc id
  | ran i c hev hd hlog =>
    subst hev
    exact absurd hc id
  | cancelled hc ht => exact (past_cancel (hp hc)).evolves ht
  | other hn hev ht hepoch => exact absurd hc hn

/-- What has been left behind does not come back. -/
theorem step_past (h : s.timer.Past n) (hs : step E s ev = some t) :
    t.timer.Past n ∧ ArmedAfter n s ev t := by
  have hno : (∀ i, ev ≠ .timer i) → ArmedAfter n s ev t := fun hev i _ hi => absurd hi (hev i)
  cases step_timer hs with
  | expired hev ht =>
    subst hev
    exact ⟨ht ▸ h.expire, hno fun _ => Event.noConfusion⟩
  | ran i c hev hd hlog =>
    obtain ⟨hpast, hlate⟩ := h.dequeue hd
    refine ⟨hpast, fun j w _ hw => ?_⟩
    have hout := List.append_cancel_left (hw.symm.trans hlog)
    by_cases hcode : c.code = .success
    · rw [if_pos hcode] at hout
      cases hout
      exact hlate hcode
    · rw [if_neg hcode] at hout
      cases hout
  | cancelled hc ht =>
    refine ⟨h.evolves ((evolves_cancel _).trans ht), hno ?_⟩
    rintro i rfl
    exact hc
  | other hc hev ht hepoch => exact ⟨h.evolves ht, hno hev⟩

theorem step_dated (h : s.timer.Dated) (hs : step E s ev = some t) : t.timer.Dated := by
  cases step_timer hs with
  | expired hev ht => exact ht ▸ h.expire
  | ran i c hev hd hlog => exact h.dequeue hd
  | cancelled hc ht => exact h.evolves ((evolves_cancel _).trans ht)
  | other hc hev ht hepoch => exact h.evolves ht

theorem start_dated (tag : Bytes) (junk : Uninitialised) : (start E tag junk).timer.Dated :=
  ⟨List.forall_mem_nil _, List.forall_mem_nil _⟩

/-! ## Runs -/

/-- In the run `es` no deadline ends the connection after a completion has disarmed the wait it
belongs to: whatever times out later was armed since. -/
def Timely (E : Externals) (s : Session E.parser.State) (es : List Event) : Prop :=
  ∀ a ev b u t, es = a ++ ev :: b → runs (step E) s a = some u → step E u ev = some t →
    Disarms u ev t → Steps (step E) (ArmedAfter u.timer.epoch) t b

theorem Timely.of_append {fs : List Event} (h : Timely E s (es ++ fs)) : Timely E s es := by
  intro a ev b u t hes ha ht hd
  refine along_of_append (h a ev (b ++ fs) u t ?_ ha ht hd)
  rw [hes, List.append_assoc, List.cons_append]

theorem timely_of_along (h : Along (step E) Punctual s es) : Timely E s es := by
  intro a ev b u t hes ha ht hd
  subst hes
  have hp := ((along_append ha).mp h).2.1
  have hpast := step_cancels hp ((disarms_iff ht).mp hd) ht
  have hstep : ∀ v e w, v.timer.Past u.timer.epoch → True → step E v e = some w →
      w.timer.Past u.timer.epoch ∧ ArmedAfter u.timer.epoch v e w :=
    fun _ _ _ hv _ hw => step_past hv hw
  exact steps_of_step hstep hpast (along_of_forall (fun _ _ => trivial) t b)

/-- The completion `c` is about to time out a wait that a completion has disarmed. -/
structure Stale (E : Externals) (s : Session E.parser.State) (es : List Event)
    (u : Session E.parser.State) (c : Completion Waiter) : Prop where
  queued : c ∈ u.timer.queued
  code : c.code = .success
  disarmed : ∃ a ev b v t, es = a ++ ev :: b ∧ runs (step E) s a = some v ∧ step E v ev = some t ∧
    Disarms v ev t ∧ runs (step E) t b = some u ∧ c.wait.epoch ≤ v.timer.epoch

/-- What is queued stays queued, but for the completion that runs. -/
theorem step_queued {c : Completion Waiter} (hs : step E s ev = some t) (hc : c ∈ s.timer.queued) :
    c ∈ t.timer.queued ∨
      ∃ i, ev = .timer i ∧ (c.code = .success → t.log = s.log ++ [.timedOut c.wait]) := by
  have hgrow : ∀ m, Evolves m t.timer → c ∈ m.queued → c ∈ t.timer.queued := by
    intro m he hm
    obtain ⟨q, hq, -⟩ := he.queued
    rw [hq]
    exact List.mem_append_left _ hm
  cases step_timer hs with
  | expired hev ht =>
    left
    rw [ht, DeadlineTimer.expire_queued]
    exact List.mem_append_left _ hc
  | ran i d hev hd hlog =>
    rcases DeadlineTimer.mem_of_dequeue hd hc with rfl | hm
    · refine Or.inr ⟨i, hev, fun hcode => ?_⟩
      rw [hlog, if_pos hcode]
    · exact Or.inl hm
  | cancelled _ ht => exact Or.inl (hgrow _ ht (List.mem_append_left _ hc))
  | other _ _ ht _ => exact Or.inl (hgrow _ ht hc)

theorem Stale.step {c : Completion Waiter} (h : Stale E s es u c) (hl : Timely E s (es ++ [ev]))
    (ht : step E u ev = some t) : Stale E s (es ++ [ev]) t c := by
  obtain ⟨a, e, b, v, w, rfl, ha, he, hd, hb, hle⟩ := h.disarmed
  have hsplit : a ++ e :: b ++ [ev] = a ++ e :: (b ++ [ev]) := by
    rw [List.append_assoc, List.cons_append]
  have hrest : runs (step E) w (b ++ [ev]) = some t :=
    runs_append_iff.mpr ⟨u, hb, runs_cons_iff.mpr ⟨t, ht, rfl⟩⟩
  rcases step_queued ht h.queued with hq | ⟨i, rfl, hlog⟩
  · exact ⟨hq, h.code, a, e, b ++ [ev], v, w, hsplit, ha, he, hd, hrest, hle⟩
  · have hlast := ((along_append hb).mp (hl a e (b ++ [.timer i]) v w hsplit ha he hd)).2.1 t ht
    have hlate := hlast i c.wait rfl (hlog h.code)
    omega

/-- As long as a run is timely, either every cancel has been punctual, or a stale completion is
queued. -/
theorem along_or_stale (hd : s.timer.Dated) (h : runs (step E) s es = some u) (hl : Timely E s es) :
    Along (step E) Punctual s es ∨ ∃ c, Stale E s es u c := by
  induction es using List.reverseRecOn generalizing u with
  | nil => exact Or.inl trivial
  | append_singleton es ev ih =>
    obtain ⟨v, hv, hlast⟩ := runs_append_iff.mp h
    obtain ⟨t, ht, hu⟩ := runs_cons_iff.mp hlast
    obtain rfl := Option.some.inj hu
    rcases ih hv hl.of_append with ha | ⟨c, hc⟩
    · by_cases hp : Punctual v ev
      · exact Or.inl ((along_append hv).mpr ⟨ha, hp, fun _ _ => trivial⟩)
      · unfold Punctual at hp
        push Not at hp
        obtain ⟨hcancel, c, hq, hcode⟩ := hp
        have hdated : v.timer.Dated :=
          invariant (D := fun _ _ => True) (fun _ _ _ hx _ ht => step_dated hx ht) hd
            (along_of_forall (fun _ _ => trivial) s es) hv
        have hstays : c ∈ t.timer.queued := by
          refine (step_queued ht hq).resolve_right ?_
          rintro ⟨i, rfl, -⟩
          exact hcancel
        exact Or.inr ⟨c, hstays, hcode, es, ev, [], v, t, rfl, hv, ht,
          (disarms_iff ht).mpr hcancel, rfl, hdated.queued c hq⟩
    · exact Or.inr ⟨c, hc.step hl ht⟩

/-- A queued completion of the timer can run next. -/
theorem step_timedOut {c : Completion Waiter} (hf : s.fault = none) (hq : c ∈ s.timer.queued)
    (hc : c.code = .success) :
    ∃ i t, step E s (.timer i) = some t ∧ t.log = s.log ++ [.timedOut c.wait] := by
  obtain ⟨i, hi, rfl⟩ := List.mem_iff_getElem.mp hq
  refine ⟨i, (({ s with timer := { s.timer with queued := s.timer.queued.eraseIdx i } } :
    Session E.parser.State).note (.timedOut s.timer.queued[i].wait)), ?_, rfl⟩
  have hdeq : s.timer.dequeue i =
      some (s.timer.queued[i], { s.timer with queued := s.timer.queued.eraseIdx i }) := by
    unfold DeadlineTimer.dequeue
    rw [List.getElem?_eq_getElem hi]
    rfl
  unfold step Session.step
  rw [if_neg (by rw [hf]; decide)]
  dsimp only
  rw [hdeq]
  change some (handleTimer _ s.timer.queued[i].code _) = _
  rw [hc]
  rfl

/-- A run whose cancels are all punctual is timely. Conversely, a run that has not crashed and
stays timely whichever completion of the timer runs next has had punctual cancels only. -/
theorem timeouts_timely_iff (E : Externals) (tag : Bytes) (junk : Uninitialised) (es : List Event) :
    (Along (step E) Punctual (start E tag junk) es → Timely E (start E tag junk) es) ∧
    ∀ u, runs (step E) (start E tag junk) es = some u → u.fault = none →
      ((∀ i, Timely E (start E tag junk) (es ++ [.timer i])) ↔
        Along (step E) Punctual (start E tag junk) es) := by
  refine ⟨timely_of_along, fun u h hf => ⟨fun hl => ?_, fun ha i => ?_⟩⟩
  · refine (along_or_stale (start_dated tag junk) h (hl 0).of_append).resolve_right ?_
    rintro ⟨c, hc⟩
    obtain ⟨i, t, ht, hlog⟩ := step_timedOut (E := E) hf hc.queued hc.code
    obtain ⟨a, ev, b, v, w, rfl, ha, hev, hd, hb, hle⟩ := hc.disarmed
    have hsplit : a ++ ev :: b ++ [.timer i] = a ++ ev :: (b ++ [.timer i]) := by
      rw [List.append_assoc, List.cons_append]
    have hlast := ((along_append hb).mp (hl i a ev (b ++ [.timer i]) v w hsplit ha hev hd)).2.1 t ht
    have hlate := hlast i c.wait rfl hlog
    omega
  · exact timely_of_along ((along_append h).mpr ⟨ha, fun hc => absurd hc id, fun _ _ => trivial⟩)

/-- The reply to one request is written, the deadline of the next phase passes, and the next
request arrives before `handle_timer` runs. -/
def lateTimeout : List Event :=
  [.read .success (getBytes (ascii "/")) [.create .ok Reply.textHtml 0], .write 0 .success, .expire,
    .read .success (getBytes (ascii "/")) [.create .ok Reply.textHtml 0], .timer 0]

theorem timeouts_timely_iff_late :
    ∃ u, runs (step getServer) (start getServer [] .zero) lateTimeout = some u ∧
      ((∀ i, Timely getServer (start getServer [] .zero) (lateTimeout ++ [.timer i])) ↔
        Along (step getServer) Punctual (start getServer [] .zero) lateTimeout) := by
  obtain ⟨u, hu, hf⟩ : ∃ u, runs (step getServer) (start getServer [] .zero) lateTimeout = some u ∧
      u.fault = none := ⟨_, rfl, rfl⟩
  exact ⟨u, hu, (timeouts_timely_iff getServer [] .zero lateTimeout).2 u hu hf⟩

/-- The second reply is on its way when the deadline for the second request ends the
connection. -/
theorem lateTimeout_not_timely :
    (∃ u, runs (step getServer) (start getServer [] .zero) lateTimeout = some u ∧
      u.writes.length = 1 ∧ u.log.getLast? = some (.timedOut ⟨.handleTimer, 3⟩)) ∧
    ¬ Timely getServer (start getServer [] .zero) lateTimeout := by
  refine ⟨⟨_, rfl, rfl, by decide +kernel⟩, fun hl => ?_⟩
  obtain ⟨s, hs, t, ht, v, hv, hd, hlog, hepoch⟩ : ∃ s, runs (step getServer)
      (start getServer [] .zero) (lateTimeout.take 3) = some s ∧
      ∃ t, step getServer s (.read .success (getBytes (ascii "/")) [.create .ok Reply.textHtml 0]) =
        some t ∧
      ∃ v, step getServer t (.timer 0) = some v ∧ Disarms s (.read .success (getBytes (ascii "/"))
        [.create .ok Reply.textHtml 0]) t ∧ v.log = t.log ++ [.timedOut ⟨.handleTimer, 3⟩] ∧
        s.timer.epoch = 3 :=
    ⟨_, rfl, _, rfl, _, rfl, ⟨rfl, by decide +kernel⟩, rfl, rfl⟩
  have hlate := (hl (lateTimeout.take 3) _ [.timer 0] s t rfl hs ht hd).1 v hv 0 _ rfl hlog
  rw [hepoch] at hlate
  exact absurd hlate (Nat.lt_irrefl 3)

end HttpConnection

end CsiHttp.Server
