import CsiHttp.Client.Watching

/-!
# Readiness

A socket stays watched as long as every completion of a wait leads libcurl to say anew what
it wants, or is a completion of `socket_rx_cb` for a transfer that is not done.
-/
namespace CsiHttp.Client

open Lib Lib.Text Lib.Runs

namespace HttpClient

variable {c d u : HttpClient} {es : List Event}

instance (c : HttpClient) (o : Nat) (output : Bool) : Decidable (c.Waits o output) :=
  decidable_of_iff
    ((c.watches.any fun w => w.socket == o && w.output == output) = true ∨
      (c.queue.any fun
        | .socketCb w _ => w.socket == o && w.output == output
        | _ => false) = true) (by
    simp only [List.any_eq_true, Waits]
    constructor
    · rintro (⟨w, hw, hwo⟩ | ⟨x, hx, hxo⟩)
      · obtain ⟨hs, ho⟩ := Bool.and_eq_true_iff.mp hwo
        exact ⟨w, eq_of_beq hs, eq_of_beq ho, .inl hw⟩
      · cases x with
        | socketCb w e =>
          obtain ⟨hs, ho⟩ := Bool.and_eq_true_iff.mp hxo
          exact ⟨w, eq_of_beq hs, eq_of_beq ho, .inr ⟨e, hx⟩⟩
        | perform h => cases hxo
        | pollRemove h => cases hxo
        | deleteSocket o => cases hxo
    · rintro ⟨w, rfl, rfl, hw | ⟨e, hw⟩⟩
      · exact .inl ⟨w, hw, by simp⟩
      · exact .inr ⟨.socketCb w e, hw, by simp⟩)

/-- What follows when a wait `w` of an open socket has completed: another wait for the
direction is there, or libcurl renews or ends what it wants of the socket, or
`socket_rx_cb` starts the wait again. `c` is the state in which the handler begins. -/
def Resumes (c : HttpClient) (w : Watch) (as : List CurlAct) : Prop :=
  match c.sockets w.socket with
  | some ⟨s, true⟩ =>
    match demand s c.log with
    | some (h, what) =>
      c.curl.busy h = true → what.wants w.output = true →
        c.Waits w.socket w.output ∨ (∃ a ∈ as, Renews s h a) ∨
          w.output = false ∧ (c.contexts w.context).curlDone = false ∧ ¬ c.Completes w.context as
    | none => True
  | _ => True

instance (c : HttpClient) (w : Watch) (as : List CurlAct) : Decidable (c.Resumes w as) :=
  match hs : c.sockets w.socket with
  | some ⟨s, true⟩ =>
    match hd : demand s c.log with
    | some (h, what) =>
      decidable_of_iff (c.curl.busy h = true → what.wants w.output = true →
        c.Waits w.socket w.output ∨ (∃ a ∈ as, Renews s h a) ∨
          w.output = false ∧ (c.contexts w.context).curlDone = false ∧
            ¬ c.Completes w.context as)
        (by simp only [Resumes, hs, hd])
    | none => isTrue (by simp only [Resumes, hs, hd])
  | some ⟨s, false⟩ => isTrue (by simp only [Resumes, hs])
  | none => isTrue (by simp only [Resumes, hs])

/-- Every completion of a wait that runs resumes what it ended. -/
def Resumed (c : HttpClient) : Event → Prop
  | .run i _ as =>
    match c.queue[i]? with
    | some (.socketCb w .success) => Resumes { c with queue := c.queue.eraseIdx i } w as
    | _ => True
  | _ => True

instance (c : HttpClient) : DecidablePred c.Resumed
  | .run i _ as =>
    match hi : c.queue[i]? with
    | some (.socketCb w .success) =>
      decidable_of_iff (Resumes { c with queue := c.queue.eraseIdx i } w as)
        (by simp only [Resumed, hi])
    | some (.socketCb _ .operationAborted) | some (.socketCb _ .failure) | some (.perform _)
    | some (.pollRemove _) | some (.deleteSocket _) | none => isTrue (by simp only [Resumed, hi])
  | .performAsync _ | .ready _ | .expire | .timer _ _ => isTrue trivial

/-- The sockets are right, and every one is watched as it should be. -/
structure Attentive (c : HttpClient) : Prop where
  mapped : Mapped c
  met : ∀ s output, c.Met s output

theorem Inert.attentive (hi : Inert c d) (ha : Attentive c) : Attentive d :=
  ⟨hi.mapped ha.mapped, fun s output => hi.met (ha.met s output)⟩

theorem acts_attentive {as : List CurlAct} (ha : Attentive c) (hacts : c.acts as = some d)
    (hf : d.fault = none) : Attentive d := by
  obtain ⟨hm, hkept⟩ := acts_kept ha.mapped hacts hf
  exact ⟨hm, fun s output => (hkept s output).1 (ha.met s output)⟩

/-! ## Handlers -/

/-- A handler other than the completion of a wait is taken out of the queue. -/
theorem erase_attentive {w : Work} {i : Nat} (ha : Attentive c) (hi : c.queue[i]? = some w)
    (hw : ∀ w' e, w = .socketCb w' e → c.Closed w'.socket) :
    Attentive { c with queue := c.queue.eraseIdx i } := by
  refine ⟨erase_mapped ha.mapped i, fun s output o h what ho hd hb hwant => ?_⟩
  refine erase_waits hi (ha.met s output o h what ho hd hb hwant) fun w' e he hs => ?_
  exact absurd (hs ▸ hw w' e he) (ha.mapped.not_closed ho)

theorem deleteSocket_attentive {o : Nat} (ha : Attentive c) (hc : c.Closed o) :
    Attentive (c.deleteSocket o) := ⟨deleteSocket_mapped ha.mapped hc, ha.met⟩

/-- A transfer that begins wants nothing yet. -/
theorem started_attentive (ha : Attentive c) (h : Nat) :
    Attentive (note { c with curl := c.curl.add h } (.started h)) := by
  refine ⟨{ ha.mapped with }, fun s output o h' what ho hd hb hw => ?_⟩
  rw [note, demand_concat, demandNext] at hd
  split at hd
  · cases hd
  · next hne =>
    rw [hd] at hne
    have hh : h' ≠ h := fun hh => hne (by rw [hh]; rfl)
    refine ha.met s output o h' what ho hd ?_ hw
    simpa only [note, Curl.busy, Curl.add, Function.update_of_ne hh] using hb

theorem perform_attentive {h : Nat} {accepted : Bool} {as : List CurlAct} (ha : Attentive c)
    (hd : c.perform h accepted as = some d) (hf : d.fault = none) : Attentive d := by
  have hset : Inert c ((c.curlStart h).setPrivate h) := .aside rfl rfl rfl rfl rfl rfl rfl
  cases performed_of_perform hd with
  | started d hacts => exact acts_attentive (started_attentive (hset.attentive ha) h) hacts hf
  | refused has => exact (hset.trans (inert_note (o := .refused h) _ trivial)).attentive ha
  | unsupported has => cases hf

theorem pollRemove_attentive {h : Nat} {as : List CurlAct} (ha : Attentive c)
    (hd : c.pollRemove h as = some d) (hf : d.fault = none) : Attentive d := by
  cases pollRemoved_of_pollRemove hd with
  | unknown has => exact ha
  | crashed b hb hcrash =>
    rw [hf] at hcrash
    cases hcrash
  | removed b hb hbf =>
    have hi : Inert b { b with curl := b.curl.remove h } :=
      { Inert.refl b with
        assigned := fun _ _ => .inl
        busy := fun h' hb => by
          simp only [Curl.busy, Curl.remove, Function.update_apply] at hb ⊢
          split at hb
          · exact absurd hb Bool.false_ne_true
          · exact hb }
    have hnote := hi.trans (inert_note (o := .removed h) _ trivial)
    exact hnote.attentive (acts_attentive ha hb hbf)

/-- What is not met once a completion is taken out of the queue: the demand that the wait
answered. -/
theorem met_or_ended {i : Nat} {w : Watch} {e : ErrorCode} (ha : Attentive c)
    (hi : c.queue[i]? = some (.socketCb w e)) (s : Nat) (output : Bool) :
    Met { c with queue := c.queue.eraseIdx i } s output ∨
      c.socketMap s = some w.socket ∧ output = w.output ∧
        ∃ h what, demand s c.log = some (h, what) ∧ c.curl.busy h = true ∧
          what.wants w.output = true ∧
          ¬ Waits { c with queue := c.queue.eraseIdx i } w.socket w.output := by
  by_cases hmet : Met { c with queue := c.queue.eraseIdx i } s output
  · exact .inl hmet
  · right
    simp only [Met, not_forall] at hmet
    obtain ⟨o, h, what, ho, hd, hb, hw, hnot⟩ := hmet
    have hsame : w.socket = o ∧ w.output = output := by
      by_contra hne
      refine hnot (erase_waits hi (ha.met s output o h what ho hd hb hw) ?_)
      rintro w' e' he hs hout
      obtain ⟨rfl, -⟩ := Work.socketCb.inj he
      exact hne ⟨hs, hout⟩
    obtain ⟨rfl, rfl⟩ := hsame
    exact ⟨ho, rfl, h, what, hd, hb, hw, hnot⟩

theorem socketCb_attentive {i : Nat} {w : Watch} {as : List CurlAct} (ha : Attentive c)
    (hi : c.queue[i]? = some (.socketCb w .success))
    (hr : Resumes { c with queue := c.queue.eraseIdx i } w as)
    (hd : socketCb { c with queue := c.queue.eraseIdx i } w .success as = some d)
    (hf : d.fault = none) : Attentive d := by
  have hm := erase_mapped ha.mapped i
  -- how `Resumes` reads where the demand is not met
  have hresume : ∀ s h what, c.socketMap s = some w.socket → demand s c.log = some (h, what) →
      c.curl.busy h = true → what.wants w.output = true →
      ¬ Waits { c with queue := c.queue.eraseIdx i } w.socket w.output →
      (∃ a ∈ as, Renews s h a) ∨ w.output = false ∧ (c.contexts w.context).curlDone = false ∧
        ¬ Completes { c with queue := c.queue.eraseIdx i } w.context as := by
    intro s h what ho hdem hb hw hnot
    have hopen := ha.mapped.isOpen s w.socket ho
    simp only [Resumes, hopen, hdem] at hr
    exact (hr hb hw).resolve_left hnot
  -- a demand that libcurl has left open, when it returns in the state `b`
  have hreturn : ∀ b, acts { c with queue := c.queue.eraseIdx i } as = some b → b.fault = none →
      Inert b d →
      (∀ s, b.socketMap s = some w.socket → w.output = false →
        (b.contexts w.context).curlDone = false → d.Met s w.output) → Attentive d := by
    intro b hb hfb hbd hagain
    obtain ⟨hmb, hkept⟩ := acts_kept hm hb hfb
    refine ⟨hbd.mapped hmb, fun s output => ?_⟩
    obtain ⟨hmet, howed, hren⟩ := hkept s output
    obtain hmet0 | ⟨ho, hout, h, what, hdem, hbusy, hw, hnot⟩ := met_or_ended ha hi s output
    · exact hbd.met (hmet hmet0)
    obtain hmet' | ⟨-, hmap⟩ := howed
    · exact hbd.met hmet'
    obtain hrenews | ⟨hrx, hdone, hcomp⟩ := hresume s h what ho hdem hbusy hw hnot
    · exact hbd.met (hren h what hdem hrenews)
    · rw [hout]
      exact hagain s (hmap.trans ho) hrx ((acts_curlDone hm hb hfb hcomp).trans hdone)
  cases socketCalled_of_socketCb hd with
  | ignored hskip has =>
    subst has
    refine ⟨hm, fun s output => (met_or_ended ha hi s output).resolve_right ?_⟩
    rintro ⟨ho, -, h, what, hdem, hb, hw, hnot⟩
    obtain ⟨a, hmem, -⟩ | ⟨-, hdone, -⟩ := hresume s h what ho hdem hb hw hnot
    · cases hmem
    · exact hskip ⟨rfl, .inr hdone⟩
  | dangling he hw has => cases hf
  | stopped b he hb hstop =>
    refine hreturn d hb hf (.refl d) fun s hs hrx hdone => ?_
    rw [hf, hrx, hdone] at hstop
    simp at hstop
  | watched b he hb hgo =>
    have hfb : b.fault = none := Option.not_isSome_iff_eq_none.mp (fun hc => hgo (.inl hc))
    have hmb := (acts_kept hm hb hfb).1
    refine hreturn b hb hfb (inert_watch hmb _ _ _) fun s hs hrx hdone => ?_
    -- `socket_rx_cb` starts the wait again
    intro o h' what' ho' _ _ _
    rw [(inert_watch hmb _ _ _).socketMap] at ho'
    obtain rfl := Option.some.inj (hs.symm.trans ho')
    rw [hrx]
    exact watch_waits (hmb.isOpen s w.socket hs) w.context false

theorem resumes_note {o : Obs} (c : HttpClient) (w : Watch) (as : List CurlAct) (ho : o.Idle) :
    (c.note o).Resumes w as ↔ c.Resumes w as := by
  have hd : ∀ s, demand s (c.log ++ [o]) = demand s c.log := fun s =>
    demand_append_idle s c.log (fun o' ho' => List.mem_singleton.mp ho' ▸ ho)
  simp only [Resumes, note, hd]
  exact Iff.rfl

theorem run_attentive {i : Nat} {x : Work} {accepted : Bool} {as : List CurlAct}
    (ha : Attentive c) (hi : c.queue[i]? = some x)
    (hr : ∀ w, x = .socketCb w .success → Resumes { c with queue := c.queue.eraseIdx i } w as)
    (hd : run { c with queue := c.queue.eraseIdx i } accepted as x = some d)
    (hf : d.fault = none) : Attentive d := by
  have hsound := ha.mapped.sound x (List.mem_of_getElem? hi)
  cases x with
  | perform h => exact perform_attentive (erase_attentive ha hi (fun _ _ he => by cases he)) hd hf
  | pollRemove h =>
    exact pollRemove_attentive (erase_attentive ha hi (fun _ _ he => by cases he)) hd hf
  | deleteSocket o =>
    obtain ⟨rfl, -⟩ := noActs_eq_some hd
    exact deleteSocket_attentive (erase_attentive ha hi (fun _ _ he => by cases he)) hsound
  | socketCb w e =>
    by_cases he : e = .success
    · subst he
      simp only [run, noteReadable] at hd
      split at hd
      · -- the observation is made before the handler leaves the queue just as well
        let o : Obs := .readable w.context (!(c.contexts w.context).curlDone)
        have han : Attentive (c.note o) := (inert_note (o := o) c trivial).attentive ha
        exact socketCb_attentive (c := c.note o) han hi
          ((resumes_note (o := o) _ w as trivial).mpr (hr w rfl)) hd hf
      · exact socketCb_attentive ha hi (hr w rfl) hd hf
    · simp only [run, noteReadable, socketCb, he, false_and, if_false] at hd
      obtain ⟨rfl, -⟩ := noActs_eq_some hd
      refine erase_attentive ha hi fun w' e' hx => ?_
      obtain ⟨rfl, -⟩ := Work.socketCb.inj hx
      exact hsound he

/-- The completion of a wait is queued. -/
theorem ready_attentive {i : Nat} {w : Watch} (ha : Attentive c) (hw : c.watches[i]? = some w) :
    Attentive (post { c with watches := c.watches.eraseIdx i } (.socketCb w .success)) := by
  refine ⟨{ ha.mapped with sound := fun x hx => ?_ }, fun s output o h what ho hd hb hwant => ?_⟩
  · obtain hx | hx := List.mem_append.mp hx
    · exact ha.mapped.sound x hx
    · obtain rfl := List.mem_singleton.mp hx
      exact fun he => absurd rfl he
  · obtain ⟨w', hs, hout, hwait⟩ := ha.met s output o h what ho hd hb hwant
    refine ⟨w', hs, hout, ?_⟩
    obtain hwait | ⟨e, hwait⟩ := hwait
    · obtain rfl | hwait := mem_or_eq_of_eraseIdx hw hwait
      · exact .inr ⟨.success, List.mem_append_right _ (List.mem_singleton.mpr rfl)⟩
      · exact .inl hwait
    · exact .inr ⟨e, List.mem_append_left _ hwait⟩

theorem step_attentive {ev : Event} (ha : Attentive c) (hr : Resumed c ev)
    (hd : c.step ev = some d) (hf : d.fault = none) : Attentive d := by
  cases (stepped_of_step hd).2 with
  | performAsync h => exact (inert_performAsync c h).attentive ha
  | ready i w hw => exact ready_attentive ha hw
  | expire hp =>
    have hi : Inert c { c with timer := c.timer.expire } := .aside rfl rfl rfl rfl rfl rfl rfl
    exact hi.attentive ha
  | timeout i as x timer d hx hcode hacts =>
    have hi : Inert c { c with timer := timer } := .aside rfl rfl rfl rfl rfl rfl rfl
    exact acts_attentive ((hi.trans (inert_timerCb _ x.code)).attentive ha) hacts hf
  | aborted i x timer hx hcode =>
    have hi : Inert c { c with timer := timer } := .aside rfl rfl rfl rfl rfl rfl rfl
    exact (hi.trans (inert_timerCb _ x.code)).attentive ha
  | run i accepted as x d hx hrun =>
    refine run_attentive ha hx (fun w hw => ?_) hrun hf
    subst hw
    simpa only [Resumed, hx] using hr

/-! ## Runs -/

theorem attentive_new (method : Nat → Nat) (content : Nat → Bytes) :
    Attentive (new method content) where
  mapped := mapped_new method content
  met _ _ _ _ _ hs _ _ _ := by cases hs

/-- As long as every completion that runs resumes what it ended, every open socket is
watched as the unfinished transfer that uses it wants. -/
theorem watched_of_resumed (method : Nat → Nat) (content : Nat → Bytes)
    (hr : Along step Resumed (new method content) es) :
    Throughout step Watched (new method content) es := by
  refine throughout_of_step (I := fun c => c.fault = none → Attentive c)
    (fun c ha hf => (ha hf).met) (fun c ev d ha hr hd hf => ?_)
    (fun _ => attentive_new method content) hr
  exact step_attentive (ha (stepped_of_step hd).1) hr hd hf

/-- An upload of one piece, whose answer is read in two. -/
def uploaded : List Event :=
  [.performAsync 0, .run 0 true [.multiTimer 1], .expire,
    .timer 0 [.opensocket true true 5, .sockCb 0 5 .pollOut []], .ready 0,
    .run 0 true [.read 0 10, .sockCb 0 5 .pollIn []], .ready 0,
    .run 0 true [.header 0 (ascii "HTTP/1.1 200 OK"), .response 0 200], .ready 0]

theorem watched_of_resumed_uploaded :
    Throughout step Watched (new (fun _ => 4) (fun _ => ascii "0123456789")) uploaded :=
  watched_of_resumed _ _ (by decide +kernel)

/-- An upload of two pieces: libcurl has sent the first and goes on wanting to write. -/
def stalled : List Event :=
  [.performAsync 0, .run 0 true [.multiTimer 1], .expire,
    .timer 0 [.opensocket true true 5, .sockCb 0 5 .pollOut []], .ready 0,
    .run 0 true [.read 0 5]]

theorem stalled_not_watched :
    ∃ u, runs step (new (fun _ => 4) (fun _ => ascii "0123456789")) stalled = some u ∧
      ¬ Watched u := by
  have hrun : ∃ u, runs step (new (fun _ => 4) (fun _ => ascii "0123456789")) stalled = some u ∧
      u.fault = none ∧ u.socketMap 5 = some 0 ∧ demand 5 u.log = some (0, .pollOut) ∧
        u.curl.busy 0 = true ∧ u.watches = [] ∧ u.queue = [] :=
    ⟨_, rfl, rfl, rfl, rfl, rfl, rfl, rfl⟩
  obtain ⟨u, hu, hf, hmap, hd, hb, hw, hq⟩ := hrun
  refine ⟨u, hu, fun hwatched => ?_⟩
  obtain ⟨w, -, -, hwait⟩ := hwatched hf 5 true 0 0 .pollOut hmap hd hb rfl
  rw [hw, hq] at hwait
  obtain hwait | ⟨e, hwait⟩ := hwait
  · cases hwait
  · cases hwait

end HttpClient

end CsiHttp.Client
