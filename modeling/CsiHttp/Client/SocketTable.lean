import CsiHttp.Client.Watching

/-!
# The table of sockets

A socket object is referred to from the map, from libcurl, from pending waits and from queued
handlers, and it is deleted by a handler of its own, queued when the socket is closed. The
`io_service` runs the queue in order, so what has been queued before the deletion still finds
the object, and what is queued after it is an error that looks at no object.
-/
namespace CsiHttp.Client

open Lib Lib.Text Lib.Runs

/-- The number of sockets opened so far, and for each descriptor that is open the number of the
opening. -/
abbrev Table := Nat × (Nat → Option Nat)

def Table.next (t : Table) : Obs → Table
  | .opened s => (t.1 + 1, Function.update t.2 s (some t.1))
  | .closed s => (t.1, Function.update t.2 s none)
  | .started _ | .refused _ | .response _ _ | .header _ _ | .body _ _ | .finished _ _ | .removed _
  | .sock _ _ _ _ | .readable _ _ | .called _ _ | .timeoutAction => t

/-- The table that the calls of `opensocket_cb` and `closesocket_cb` amount to. -/
def table (log : List Obs) : Table := log.foldl Table.next (0, fun _ => none)

/-- The observation is of no opening and of no closing. -/
def Obs.Aside : Obs → Prop
  | .opened _ | .closed _ => False
  | .started _ | .refused _ | .response _ _ | .header _ _ | .body _ _ | .finished _ _ | .removed _
  | .sock _ _ _ _ | .readable _ _ | .called _ _ | .timeoutAction => True

theorem table_concat (log : List Obs) (o : Obs) : table (log ++ [o]) = (table log).next o :=
  List.foldl_concat _ _ _ _

theorem Obs.Aside.next {o : Obs} (ho : o.Aside) (t : Table) : t.next o = t := by
  cases o with
  | opened s | closed s => exact ho.elim
  | _ => rfl

theorem table_append_aside (log : List Obs) {l : List Obs} (hl : ∀ o ∈ l, o.Aside) :
    table (log ++ l) = table log := by
  unfold table
  rw [List.foldl_append]
  generalize log.foldl Table.next (0, fun _ => none) = t
  induction l with
  | nil => rfl
  | cons o l ih =>
    obtain ⟨ho, hl⟩ := List.forall_mem_cons.mp hl
    rw [List.foldl_cons, ho.next, ih hl]

namespace HttpClient

/-- The socket object has not been deleted. -/
def Live (c : HttpClient) (o : Nat) : Prop := c.sockets o ≠ none

/-- A handler that looks at its socket object finds it. -/
def Supplied (c : HttpClient) : Work → Prop
  | .deleteSocket o => c.Live o
  | .socketCb w e => e = .success → c.Live w.socket
  | .perform _ | .pollRemove _ => True

/-- `b` does without the socket object that `a`, before it in the queue, deletes. -/
def Spared (a b : Work) : Prop :=
  ∀ o, a = .deleteSocket o → b ≠ .deleteSocket o ∧ ∀ w e, b = .socketCb w e → w.socket = o →
    e ≠ .success

/-- What holds of the sockets in every state. -/
structure Tracked (c : HttpClient) : Prop where
  mapped : Mapped c
  watched : ∀ w ∈ c.watches, ∃ s, c.sockets w.socket = some ⟨s, true⟩
  ordered : c.queue.Pairwise Spared
  supplied : ∀ w ∈ c.queue, c.Supplied w
  exact : (c.nextSocket, c.socketMap) = table c.log
  sane : c.fault ≠ some .danglingSocket

/-- Work that looks at no socket object. -/
def Harmless (c : HttpClient) : Work → Prop
  | .deleteSocket _ => False
  | .socketCb w e => e ≠ .success ∧ c.Closed w.socket
  | .perform _ | .pollRemove _ => True

/-- No socket is opened, closed or deleted, and new work and new waits are sound. -/
structure Calm (c d : HttpClient) : Prop where
  socketMap : d.socketMap = c.socketMap
  sockets : d.sockets = c.sockets
  nextSocket : d.nextSocket = c.nextSocket
  assigned : ∀ s o, d.curl.assigned s = some o →
    c.curl.assigned s = some o ∨ c.socketMap s = some o
  watches : ∀ w ∈ d.watches, w ∈ c.watches ∨ ∃ s, c.sockets w.socket = some ⟨s, true⟩
  queue : ∃ q, d.queue = c.queue ++ q ∧ ∀ w ∈ q, c.Harmless w
  log : ∃ l, d.log = c.log ++ l ∧ ∀ o ∈ l, o.Aside
  fault : d.fault = some .danglingSocket → c.fault = some .danglingSocket

variable {c d e : HttpClient} {s o h : Nat}

theorem harmless_congr (hs : d.sockets = c.sockets) (hn : d.nextSocket = c.nextSocket) (w : Work) :
    d.Harmless w ↔ c.Harmless w := by
  cases w with
  | perform h => exact Iff.rfl
  | pollRemove h => exact Iff.rfl
  | deleteSocket o => exact Iff.rfl
  | socketCb w e => exact and_congr_right (fun _ => closed_congr hs hn)

theorem Harmless.spared {w : Work} (hw : c.Harmless w) (a : Work) : Spared a w := by
  intro o _
  cases w with
  | perform h => exact ⟨Work.noConfusion, fun _ _ hb => Work.noConfusion hb⟩
  | pollRemove h => exact ⟨Work.noConfusion, fun _ _ hb => Work.noConfusion hb⟩
  | deleteSocket o' => exact hw.elim
  | socketCb w' e' =>
    refine ⟨Work.noConfusion, ?_⟩
    rintro w e hb -
    cases hb
    exact hw.1

theorem Harmless.supplied {w : Work} (hw : c.Harmless w) : c.Supplied w := by
  cases w with
  | perform h => trivial
  | pollRemove h => trivial
  | deleteSocket o => exact hw.elim
  | socketCb w e => exact fun he => absurd he hw.1

theorem Harmless.sound {w : Work} (hw : c.Harmless w) : c.Sound w := by
  cases w with
  | perform h => trivial
  | pollRemove h => trivial
  | deleteSocket o => exact hw.elim
  | socketCb w e => exact fun _ => hw.2

theorem Calm.trans (hcd : Calm c d) (hde : Calm d e) : Calm c e where
  socketMap := hde.socketMap.trans hcd.socketMap
  sockets := hde.sockets.trans hcd.sockets
  nextSocket := hde.nextSocket.trans hcd.nextSocket
  assigned s o hs := by
    cases hde.assigned s o hs with
    | inl hs => exact hcd.assigned s o hs
    | inr hs => exact .inr (hcd.socketMap ▸ hs)
  watches w hw := by
    cases hde.watches w hw with
    | inl hw => exact hcd.watches w hw
    | inr hopen => exact .inr (hcd.sockets ▸ hopen)
  queue := by
    obtain ⟨q, hq, hharmless⟩ := hcd.queue
    obtain ⟨q', hq', hharmless'⟩ := hde.queue
    refine ⟨q ++ q', by rw [hq', hq, List.append_assoc], ?_⟩
    intro w hw
    cases List.mem_append.mp hw with
    | inl hw => exact hharmless w hw
    | inr hw => exact (harmless_congr hcd.sockets hcd.nextSocket w).mp (hharmless' w hw)
  log := by
    obtain ⟨l, hl, haside⟩ := hcd.log
    obtain ⟨l', hl', haside'⟩ := hde.log
    exact ⟨l ++ l', by rw [hl', hl, List.append_assoc],
      List.forall_mem_append.mpr ⟨haside, haside'⟩⟩
  fault hf := hcd.fault (hde.fault hf)

theorem Calm.mapped (hi : Calm c d) (hm : Mapped c) : Mapped d where
  isOpen s o hs := by
    rw [hi.sockets]
    exact hm.isOpen s o (hi.socketMap ▸ hs)
  assigned s o hs := by
    rw [hi.socketMap]
    exact (hi.assigned s o hs).elim (hm.assigned s o) id
  fresh o ho := by
    rw [hi.sockets]
    exact hm.fresh o (hi.nextSocket ▸ ho)
  sound w hw := by
    obtain ⟨q, hq, hharmless⟩ := hi.queue
    rw [hq] at hw
    rw [sound_congr hi.sockets hi.nextSocket]
    exact (List.mem_append.mp hw).elim (hm.sound w) (fun hw => (hharmless w hw).sound)

theorem supplied_congr (hs : d.sockets = c.sockets) (w : Work) : d.Supplied w ↔ c.Supplied w := by
  cases w with
  | perform h => exact Iff.rfl
  | pollRemove h => exact Iff.rfl
  | deleteSocket o =>
    unfold Supplied Live
    rw [hs]
  | socketCb w e =>
    unfold Supplied Live
    rw [hs]

theorem Calm.tracked (hi : Calm c d) (ht : Tracked c) : Tracked d := by
  obtain ⟨q, hq, hharmless⟩ := hi.queue
  obtain ⟨l, hl, haside⟩ := hi.log
  constructor
  · exact hi.mapped ht.mapped
  · intro w hw
    rw [hi.sockets]
    exact (hi.watches w hw).elim (ht.watched w) id
  · rw [hq, List.pairwise_append]
    refine ⟨ht.ordered, ?_, fun a _ b hb => (hharmless b hb).spared a⟩
    exact List.pairwise_of_forall_mem_list fun a _ b hb => (hharmless b hb).spared a
  · intro w hw
    rw [hq] at hw
    rw [supplied_congr hi.sockets]
    exact (List.mem_append.mp hw).elim (ht.supplied w) (fun hw => (hharmless w hw).supplied)
  · rw [hi.nextSocket, hi.socketMap, hl, table_append_aside _ haside]
    exact ht.exact
  · exact fun hf => ht.sane (hi.fault hf)

/-! ## Calm actions -/

theorem Calm.of_same (hm : d.socketMap = c.socketMap) (hs : d.sockets = c.sockets)
    (hn : d.nextSocket = c.nextSocket) (ha : d.curl.assigned = c.curl.assigned)
    (hw : d.watches = c.watches) (hq : d.queue = c.queue) (hl : d.log = c.log)
    (hf : d.fault = c.fault) : Calm c d where
  socketMap := hm
  sockets := hs
  nextSocket := hn
  assigned s o hs := .inl (ha ▸ hs)
  watches w h := .inl (hw ▸ h)
  queue := ⟨[], by rw [hq, List.append_nil], List.forall_mem_nil _⟩
  log := ⟨[], by rw [hl, List.append_nil], List.forall_mem_nil _⟩
  fault hd := hf ▸ hd

theorem Calm.refl (c : HttpClient) : Calm c c := .of_same rfl rfl rfl rfl rfl rfl rfl rfl

theorem calm_note {o : Obs} (c : HttpClient) (ho : o.Aside) : Calm c (c.note o) :=
  { Calm.refl c with log := ⟨[o], rfl, List.forall_mem_singleton.mpr ho⟩ }

theorem calm_crash {f : Fault} (c : HttpClient) (hf : f ≠ .danglingSocket) : Calm c (c.crash f) :=
  { Calm.refl c with
    queue := ⟨[], (List.append_nil _).symm, List.forall_mem_nil _⟩
    log := ⟨[], (List.append_nil _).symm, List.forall_mem_nil _⟩
    fault := fun hd => absurd (Option.some.inj hd) hf }

theorem calm_updateContext (c : HttpClient) (h : Nat) (f : CallContext → CallContext) :
    Calm c (c.updateContext h f) := .of_same rfl rfl rfl rfl rfl rfl rfl rfl

theorem calm_post {w : Work} (c : HttpClient) (hw : c.Harmless w) : Calm c (c.post w) :=
  { Calm.refl c with
    queue := ⟨[w], rfl, List.forall_mem_singleton.mpr hw⟩
    log := ⟨[], (List.append_nil _).symm, List.forall_mem_nil _⟩ }

theorem calm_performAsync (c : HttpClient) (h : Nat) : Calm c (c.performAsync h) :=
  (calm_updateContext c h _).trans (calm_post _ trivial)

theorem calm_assign (c : HttpClient) (s : Nat) (o : Option Nat)
    (ho : ∀ p, o = some p → c.socketMap s = some p) : Calm c (c.assign s o) :=
  { Calm.refl c with
    assigned := (inert_assign c s o ho).assigned
    queue := ⟨[], (List.append_nil _).symm, List.forall_mem_nil _⟩
    log := ⟨[], (List.append_nil _).symm, List.forall_mem_nil _⟩ }

theorem calm_timerCb (c : HttpClient) (e : ErrorCode) : Calm c (c.timerCb e) := by
  cases e with
  | success => exact calm_note c trivial
  | operationAborted => exact .refl c
  | failure => exact .refl c

theorem calm_multiTimerCb (c : HttpClient) (ms : Int) : Calm c (c.multiTimerCb ms) := by
  unfold multiTimerCb
  split
  · exact .of_same rfl rfl rfl rfl rfl rfl rfl rfl
  · refine Calm.trans ?_ (calm_timerCb _ _)
    exact .of_same rfl rfl rfl rfl rfl rfl rfl rfl

/-- On a socket object that is still there, a wait is started or fails at once. -/
theorem calm_watch (hm : Mapped c) (ho : c.Live o) (h : Nat) (output : Bool) :
    Calm c (c.watch o h output) := by
  unfold watch
  cases ht : c.sockets o with
  | none => exact absurd ht ho
  | some t =>
    by_cases hopen : t.isOpen = true
    · have ht' : c.sockets o = some ⟨t.descriptor, true⟩ := by rw [ht, ← hopen]
      simp only [hopen, if_true]
      exact { Calm.refl c with
        watches := fun w hw => by
          cases List.mem_append.mp hw with
          | inl hw => exact .inl hw
          | inr hw =>
            rw [List.mem_singleton.mp hw]
            exact .inr ⟨t.descriptor, ht'⟩
        queue := ⟨[], (List.append_nil _).symm, List.forall_mem_nil _⟩
        log := ⟨[], (List.append_nil _).symm, List.forall_mem_nil _⟩ }
    · simp only [hopen]
      refine calm_post c ⟨ErrorCode.noConfusion, hm.lt_nextSocket ho, fun s hs => ?_⟩
      rw [show c.sockets o = some t from ht] at hs
      obtain rfl := Option.some.inj hs
      exact hopen rfl

theorem calm_removal (h : Nat) : KeptByRemoval h Calm where
  refl := .refl
  trans := .trans
  performAsync := calm_performAsync
  called c := calm_note (o := .called h (c.contexts h)) c trivial
  storeResult _ := .of_same rfl rfl rfl rfl rfl rfl rfl rfl
  curlStop c := calm_updateContext c h _
  posted c := calm_post c trivial

theorem calm_polled (hm : Mapped c) (ho : c.Live o) (h : Nat) (what : Poll) (again : List Nat) :
    Calm c (c.polled h o what again) := by
  cases what with
  | pollIn => exact calm_watch hm ho h false
  | pollOut => exact calm_watch hm ho h true
  | pollInOut =>
    have hin := calm_watch hm ho h false
    have hlive : (c.watch o h false).Live o := by
      unfold Live
      rw [hin.sockets]
      exact ho
    exact hin.trans (calm_watch (hin.mapped hm) hlive h true)
  | pollRemove => exact (calm_removal h).pollRemoved c again

theorem Mapped.live (hm : Mapped c) (hs : c.socketMap s = some o) : c.Live o := by
  unfold Live
  rw [hm.isOpen s o hs]
  exact Option.some_ne_none _

theorem calm_sockCb (hm : Mapped c) (h s : Nat) (what : Poll) (again : List Nat) :
    Calm c (c.sockCb h s what again) := by
  cases hp : (c.contexts h).curlPrivate with
  | false =>
    rw [sockCb_of_null hp]
    have hnote : Calm c (c.note (.sock h s what false)) := calm_note c trivial
    exact hnote.trans (calm_crash _ Fault.noConfusion)
  | true =>
    have hnote : Calm c (c.note (.sock h s what (c.contexts h).curlShared)) := calm_note c trivial
    cases hs : c.socketMap s with
    | none =>
      rw [sockCb_of_unknown hp ((hm.lookup s).trans hs)]
      exact hnote
    | some o =>
      rw [sockCb_of_known hp ((hm.lookup s).trans hs)]
      have hassign := calm_assign (c.note (.sock h s what (c.contexts h).curlShared)) s (some o)
        (fun p hp => hs.trans hp)
      have hmd := hassign.mapped (hnote.mapped hm)
      exact (hnote.trans hassign).trans (calm_polled hmd (hmd.live hs) h what again)

/-! ## Openings and closings -/

theorem opensocketCb_tracked (ht : Tracked c) {s : Nat} (hs : c.descriptorOpen s = false)
    (supported opened : Bool) :
    Tracked (c.opensocketCb supported opened s) ∧
      ∀ o, c.Live o → (c.opensocketCb supported opened s).Live o := by
  have hmapped := opensocketCb_mapped ht.mapped hs supported opened
  have hnone := not_mapped_of_free ht.mapped hs
  unfold opensocketCb at hmapped ⊢
  split at hmapped
  · next hso =>
    rw [if_pos hso]
    have hlive : ∀ o, c.Live o →
        Function.update c.sockets c.nextSocket (some ⟨s, true⟩) o = c.sockets o :=
      fun o ho => Function.update_of_ne (Nat.ne_of_lt (ht.mapped.lt_nextSocket ho)) _ _
    refine ⟨⟨hmapped, ?_, ht.ordered, ?_, ?_, ht.sane⟩, fun o ho => ?_⟩
    · intro w hw
      obtain ⟨s', hs'⟩ := ht.watched w hw
      refine ⟨s', (hlive _ ?_).trans hs'⟩
      unfold Live
      rw [hs']
      exact Option.some_ne_none _
    · intro w hw
      have hold := ht.supplied w hw
      cases w with
      | perform h => trivial
      | pollRemove h => trivial
      | deleteSocket o => exact (hlive o hold).trans_ne hold
      | socketCb w e => exact fun he => (hlive _ (hold he)).trans_ne (hold he)
    · rw [note, table_concat, ← ht.exact]
      simp only [hnone, Option.getD_none, Table.next]
    · exact (hlive o ho).trans_ne ho
  · next hso =>
    rw [if_neg hso]
    exact ⟨ht, fun o ho => ho⟩

theorem closeSocket_live (c : HttpClient) {o' : Nat} (ho' : c.Live o') :
    (c.closeSocket o).Live o' := by
  unfold Live
  simp only [closeSocket]
  by_cases hoo : o' = o
  · subst hoo
    rw [Function.update_self]
    exact fun hnone => ho' (Option.map_eq_none_iff.mp hnone)
  · rw [Function.update_of_ne hoo]
    exact ho'

/-- What the queue becomes when the socket of the object `o` is closed: the waits `ws` on it are
aborted, and it is deleted after that. -/
theorem closing_ordered (ht : Tracked c) (hs : c.socketMap s = some o) (ws : List Watch) :
    (c.queue ++ ws.map (fun w => Work.socketCb w .operationAborted) ++
      [Work.deleteSocket o]).Pairwise Spared := by
  have haborts : ∀ a ∈ ws.map (fun w => Work.socketCb w .operationAborted), ∀ b, Spared a b := by
    intro a ha b o' hd
    obtain ⟨w, -, rfl⟩ := List.mem_map.mp ha
    cases hd
  rw [List.append_assoc, List.pairwise_append, List.pairwise_append]
  refine ⟨ht.ordered, ⟨?_, List.pairwise_singleton _ _, fun a ha b _ => haborts a ha b⟩, ?_⟩
  · exact List.pairwise_of_forall_mem_list fun a ha b _ => haborts a ha b
  · intro a ha b hb o' hd
    rw [hd] at ha
    -- a deletion in the queue is of another object, since this one is still open
    have hother : o' ≠ o := fun hoo => ht.mapped.not_closed hs (hoo ▸ ht.mapped.sound _ ha)
    cases List.mem_append.mp hb with
    | inl hb =>
      obtain ⟨w, -, rfl⟩ := List.mem_map.mp hb
      refine ⟨Work.noConfusion, fun w' e' hw' _ => ?_⟩
      cases hw'
      exact ErrorCode.noConfusion
    | inr hb =>
      rw [List.mem_singleton.mp hb]
      refine ⟨fun hoo => hother (Work.deleteSocket.inj hoo).symm, fun _ _ hw' => ?_⟩
      cases hw'

theorem Supplied.closeSocket {w : Work} (hw : c.Supplied w) : (c.closeSocket o).Supplied w := by
  cases w with
  | perform h => trivial
  | pollRemove h => trivial
  | deleteSocket o' => exact closeSocket_live c hw
  | socketCb w e => exact fun he => closeSocket_live c (hw he)

theorem closesocketCb_tracked (ht : Tracked c) (s : Nat) :
    Tracked (c.closesocketCb s) ∧ ∀ o, c.Live o → (c.closesocketCb s).Live o := by
  have hmapped := closesocketCb_mapped ht.mapped s
  cases hs : c.socketMap s with
  | none =>
    rw [closesocketCb_of_unmapped hs] at hmapped ⊢
    refine ⟨⟨hmapped, ht.watched, ht.ordered, ht.supplied, ?_, ht.sane⟩, fun o ho => ho⟩
    rw [note, table_concat, ← ht.exact]
    simp only [Table.next, ← hs, Function.update_eq_self]
  | some o =>
    rw [closesocketCb_of_mapped hs] at hmapped ⊢
    refine ⟨⟨hmapped, ?_, closing_ordered ht hs _, ?_, ?_, ht.sane⟩,
      fun o' ho' => closeSocket_live c ho'⟩
    · intro w hw
      obtain ⟨hw, hne⟩ := List.mem_filter.mp hw
      obtain ⟨s', hs'⟩ := ht.watched w hw
      have hoo : w.socket ≠ o := by simpa using hne
      exact ⟨s', (Function.update_of_ne hoo _ _).trans hs'⟩
    · intro w hw
      simp only [List.append_assoc, List.mem_append, List.mem_map, List.mem_singleton] at hw
      obtain hw | ⟨w', -, rfl⟩ | rfl := hw
      · exact (ht.supplied w hw).closeSocket
      · exact fun he => ErrorCode.noConfusion he
      · exact closeSocket_live c (ht.mapped.live hs)
    · rw [table_concat, ← ht.exact]
      rfl

/-! ## Calls of libcurl -/

theorem Calm.kept (hi : Calm c d) (ht : Tracked c) : Tracked d ∧ ∀ o, c.Live o → d.Live o := by
  refine ⟨hi.tracked ht, fun o ho => ?_⟩
  unfold Live
  rw [hi.sockets]
  exact ho

/-- Whatever libcurl does, no object goes away. -/
theorem act_tracked (ht : Tracked c) {a : CurlAct} (hact : c.act a = some d) :
    Tracked d ∧ ∀ o, c.Live o → d.Live o := by
  cases acted_of_act hact with
  | opensocket supported opened s hfree => exact opensocketCb_tracked ht hfree supported opened
  | closesocket s => exact closesocketCb_tracked ht s
  | sockCb h s what again hadd =>
    have hsock := calm_sockCb ht.mapped h s what again
    split
    · exact (hsock.trans (calm_assign _ s none (fun _ hp => by cases hp))).kept ht
    · exact hsock.kept ht
  | multiTimer ms => exact (calm_multiTimerCb c ms).kept ht
  | response h code hb =>
    have hrespond : Calm c { c with curl := c.curl.respond h code } :=
      .of_same rfl rfl rfl rfl rfl rfl rfl rfl
    exact (hrespond.trans (calm_note (o := .response h code) _ trivial)).kept ht
  | read h n hb => exact (calm_updateContext c h _).kept ht
  | header h line hb =>
    exact ((calm_updateContext c h _).trans (calm_note (o := .header h line) _ trivial)).kept ht
  | write h data hb =>
    exact ((calm_updateContext c h _).trans (calm_note (o := .body h data) _ trivial)).kept ht
  | finish h hb =>
    have hfinish : Calm c { c with curl := c.curl.finish h } :=
      .of_same rfl rfl rfl rfl rfl rfl rfl rfl
    exact (hfinish.trans (calm_note (o := .finished h _) _ trivial)).kept ht

theorem acts_tracked {as : List CurlAct} (ht : Tracked c) (hacts : c.acts as = some d) :
    Tracked d ∧ ∀ o, c.Live o → d.Live o := by
  induction as generalizing c with
  | nil =>
    obtain rfl := Option.some.inj hacts
    exact ⟨ht, fun o ho => ho⟩
  | cons a as ih =>
    rw [acts] at hacts
    split at hacts
    · obtain rfl := Option.some.inj hacts
      exact ⟨ht, fun o ho => ho⟩
    · obtain ⟨b, hb, hd⟩ := Option.bind_eq_some_iff.mp hacts
      obtain ⟨hbt, hlive⟩ := act_tracked ht hb
      obtain ⟨hdt, hlive'⟩ := ih hbt hd
      exact ⟨hdt, fun o ho => hlive' o (hlive o ho)⟩

/-! ## Handlers -/

/-- The handler at the front of the queue is taken out. -/
theorem erase_tracked {x : Work} (ht : Tracked c) (hx : c.queue[0]? = some x) :
    Tracked { c with queue := c.queue.eraseIdx 0 } ∧ ∀ b ∈ c.queue.eraseIdx 0, Spared x b := by
  refine ⟨⟨erase_mapped ht.mapped 0, ht.watched, ?_, ?_, ht.exact, ht.sane⟩, ?_⟩
  · exact ht.ordered.sublist (List.eraseIdx_sublist _ _)
  · exact fun w hw => ht.supplied w (List.mem_of_mem_eraseIdx hw)
  · have hordered := ht.ordered
    cases hq : c.queue with
    | nil =>
      rw [hq] at hx
      cases hx
    | cons y rest =>
      rw [hq] at hx hordered
      cases hx
      exact (List.pairwise_cons.mp hordered).1

/-- What is left in the queue does without the object. -/
theorem deleteSocket_tracked (ht : Tracked c) (ho : c.Closed o)
    (hspared : ∀ b ∈ c.queue, Spared (.deleteSocket o) b) : Tracked (c.deleteSocket o) := by
  have hlive : ∀ o', o' ≠ o → c.Live o' → (c.deleteSocket o).Live o' :=
    fun o' hoo ho' => (Function.update_of_ne hoo _ _).trans_ne ho'
  refine ⟨deleteSocket_mapped ht.mapped ho, ?_, ht.ordered, ?_, ht.exact, ht.sane⟩
  · intro w hw
    obtain ⟨s, hs⟩ := ht.watched w hw
    have hwo : w.socket ≠ o := fun hwo => ho.2 s (hwo ▸ hs)
    exact ⟨s, (Function.update_of_ne hwo _ _).trans hs⟩
  · intro b hb
    have hold := ht.supplied b hb
    obtain ⟨hdelete, hcb⟩ := hspared b hb o rfl
    cases b with
    | perform h => trivial
    | pollRemove h => trivial
    | deleteSocket o' => exact hlive o' (fun hoo => hdelete (hoo ▸ rfl)) hold
    | socketCb w e => exact fun he => hlive w.socket (fun hwo => hcb w e rfl hwo he) (hold he)

theorem calm_noteReadable (c : HttpClient) (w : Watch) (e : ErrorCode) :
    Calm c (c.noteReadable w e) := by
  unfold noteReadable
  split
  · exact calm_note _ trivial
  · exact .refl c

theorem perform_tracked {accepted : Bool} {as : List CurlAct} (ht : Tracked c)
    (hd : c.perform h accepted as = some d) : Tracked d := by
  have hstart : Calm c (c.curlStart h) := calm_updateContext c h _
  have hset : Calm c ((c.curlStart h).setPrivate h) := hstart.trans (calm_updateContext _ h _)
  cases performed_of_perform hd with
  | started d hacts =>
    have hadd : Calm ((c.curlStart h).setPrivate h)
        { (c.curlStart h).setPrivate h with curl := c.curl.add h } :=
      .of_same rfl rfl rfl rfl rfl rfl rfl rfl
    have hcalm := (hset.trans hadd).trans (calm_note (o := .started h) _ trivial)
    exact (acts_tracked (hcalm.tracked ht) hacts).1
  | refused has => exact (hset.trans (calm_note (o := .refused h) _ trivial)).tracked ht
  | unsupported has => exact (hstart.trans (calm_crash _ Fault.noConfusion)).tracked ht

theorem pollRemove_tracked {as : List CurlAct} (ht : Tracked c)
    (hd : c.pollRemove h as = some d) : Tracked d := by
  cases pollRemoved_of_pollRemove hd with
  | unknown has => exact ht
  | crashed b hb hf => exact (acts_tracked ht hb).1
  | removed b hb hf =>
    have hremove : Calm b { b with curl := b.curl.remove h } :=
      .of_same rfl rfl rfl rfl rfl rfl rfl rfl
    have hcalm := hremove.trans (calm_note (o := .removed h) _ trivial)
    exact hcalm.tracked (acts_tracked ht hb).1

/-- The socket object is used again after libcurl has returned, and it is still there: libcurl
may have closed the socket, but the deletion waits in the queue. -/
theorem socketCb_tracked {w : Watch} {e : ErrorCode} {as : List CurlAct} (ht : Tracked c)
    (hw : e = .success → c.Live w.socket) (hd : c.socketCb w e as = some d) : Tracked d := by
  cases socketCalled_of_socketCb hd with
  | ignored hskip has => exact ht
  | dangling he hnone has => exact absurd hnone (hw he)
  | stopped b he hb hstop => exact (acts_tracked ht hb).1
  | watched b he hb hgo =>
    obtain ⟨hbt, hlive⟩ := acts_tracked ht hb
    exact (calm_watch hbt.mapped (hlive _ (hw he)) _ _).tracked hbt

theorem run_tracked {x : Work} {accepted : Bool} {as : List CurlAct} (ht : Tracked c)
    (hx : c.queue[0]? = some x)
    (hd : run { c with queue := c.queue.eraseIdx 0 } accepted as x = some d) : Tracked d := by
  obtain ⟨hb, hspared⟩ := erase_tracked ht hx
  have hmem := List.mem_of_getElem? hx
  cases x with
  | perform h => exact perform_tracked hb hd
  | pollRemove h => exact pollRemove_tracked hb hd
  | deleteSocket o =>
    obtain ⟨rfl, -⟩ := noActs_eq_some hd
    exact deleteSocket_tracked hb (ht.mapped.sound _ hmem) hspared
  | socketCb w e =>
    have hnote := calm_noteReadable { c with queue := c.queue.eraseIdx 0 } w e
    obtain ⟨hbt, hlive⟩ := hnote.kept hb
    exact socketCb_tracked hbt (fun he => hlive _ (ht.supplied _ hmem he)) hd

/-- A socket that becomes ready is open, so nothing in the queue deletes its object. -/
theorem ready_tracked {i : Nat} {w : Watch} (ht : Tracked c) (hw : c.watches[i]? = some w) :
    Tracked (post { c with watches := c.watches.eraseIdx i } (.socketCb w .success)) := by
  obtain ⟨s, hs⟩ := ht.watched w (List.mem_of_getElem? hw)
  have hlive : c.Live w.socket := by
    unfold Live
    rw [hs]
    exact Option.some_ne_none _
  refine ⟨{ ht.mapped with sound := ?_ }, ?_, ?_, ?_, ht.exact, ht.sane⟩
  · intro x hx
    cases List.mem_append.mp hx with
    | inl hx => exact ht.mapped.sound x hx
    | inr hx =>
      rw [List.mem_singleton.mp hx]
      exact fun he => absurd rfl he
  · exact fun w' hw' => ht.watched w' (List.mem_of_mem_eraseIdx hw')
  · refine List.pairwise_append.mpr ⟨ht.ordered, List.pairwise_singleton _ _, ?_⟩
    intro a ha b hb o ho
    rw [ho] at ha
    rw [List.mem_singleton.mp hb]
    refine ⟨Work.noConfusion, fun w' e' he hwo _ => ?_⟩
    obtain ⟨rfl, -⟩ := Work.socketCb.inj he
    exact (ht.mapped.sound _ ha).2 s (hwo ▸ hs)
  · intro x hx
    cases List.mem_append.mp hx with
    | inl hx => exact ht.supplied x hx
    | inr hx =>
      rw [List.mem_singleton.mp hx]
      exact fun _ => hlive

/-! ## Runs -/

/-- The `io_service` runs the handler at the front of the queue. -/
def InOrder (_ : HttpClient) : Event → Prop
  | .run i _ _ => i = 0
  | .performAsync _ | .ready _ | .expire | .timer _ _ => True

instance (c : HttpClient) : DecidablePred c.InOrder
  | .run i _ _ => inferInstanceAs (Decidable (i = 0))
  | .performAsync _ | .ready _ | .expire | .timer _ _ => isTrue trivial

theorem step_tracked {ev : Event} (ht : Tracked c) (hin : c.InOrder ev)
    (hd : c.step ev = some d) : Tracked d := by
  cases (stepped_of_step hd).2 with
  | performAsync h => exact (calm_performAsync c h).tracked ht
  | ready i w hw => exact ready_tracked ht hw
  | expire hp =>
    have hcalm : Calm c { c with timer := c.timer.expire } :=
      .of_same rfl rfl rfl rfl rfl rfl rfl rfl
    exact hcalm.tracked ht
  | timeout i as x timer d hx hcode hacts =>
    have hcalm : Calm c { c with timer := timer } := .of_same rfl rfl rfl rfl rfl rfl rfl rfl
    exact (acts_tracked ((hcalm.trans (calm_timerCb _ x.code)).tracked ht) hacts).1
  | aborted i x timer hx hcode =>
    have hcalm : Calm c { c with timer := timer } := .of_same rfl rfl rfl rfl rfl rfl rfl rfl
    exact (hcalm.trans (calm_timerCb _ x.code)).tracked ht
  | run i accepted as x d hx hrun =>
    obtain rfl : i = 0 := hin
    exact run_tracked ht hx hrun

theorem tracked_new (method : Nat → Nat) (content : Nat → Bytes) :
    Tracked (new method content) where
  mapped := mapped_new method content
  watched _ hw := by cases hw
  ordered := .nil
  supplied _ hw := by cases hw
  exact := rfl
  sane hf := by cases hf

/-- The map has one entry for each descriptor that is open, which is the object made when it was
opened, and no socket object is looked at once it is deleted. A run may stop between any two
calls of libcurl. -/
theorem socketMap_exact {method : Nat → Nat} {content : Nat → Bytes} {es : List Event}
    (hin : Along step InOrder (new method content) es)
    (hd : runs step (new method content) es = some d) :
    (d.nextSocket, d.socketMap) = table d.log ∧
      (∀ s o, d.socketMap s = some o → d.sockets o = some ⟨s, true⟩) ∧
      (∀ s s' o, d.socketMap s = some o → d.socketMap s' = some o → s = s') ∧
      (∀ o, .deleteSocket o ∈ d.queue → d.Live o) ∧ d.fault ≠ some .danglingSocket := by
  have ht : Tracked d :=
    invariant (fun _ _ _ ht hin hd => step_tracked ht hin hd) (tracked_new method content) hin hd
  exact ⟨ht.exact, ht.mapped.isOpen, fun _ _ _ => ht.mapped.inj, fun o => ht.supplied _, ht.sane⟩

/-- A socket is closed while its wait has already succeeded, and its descriptor is opened again
before the deletion runs. -/
def reused : List Event :=
  [.performAsync 0, .run 0 true [.opensocket true true 5, .sockCb 0 5 .pollIn []], .ready 0,
    .performAsync 1, .run 0 true [.closesocket 5, .opensocket true true 5],
    .run 0 true [.sockCb 1 5 .pollOut []], .run 0 true [], .run 0 true []]

theorem socketMap_exact_reused :
    ∃ d, runs step (new (fun _ => 1) (fun _ => [])) reused = some d ∧
      d.sockets 0 = none ∧ d.socketMap 5 = some 1 ∧ (table d.log).2 5 = some 1 := by
  have hrun : ∃ d, runs step (new (fun _ => 1) (fun _ => [])) reused = some d ∧
      d.sockets 0 = none ∧ d.socketMap 5 = some 1 := ⟨_, rfl, rfl, rfl⟩
  obtain ⟨d, hd, hdeleted, hmap⟩ := hrun
  obtain ⟨hexact, -⟩ := socketMap_exact (by decide +kernel) hd
  refine ⟨d, hd, hdeleted, hmap, ?_⟩
  rw [← hexact]
  exact hmap

end HttpClient

end CsiHttp.Client
