import CsiHttp.Client.Transfers

/-!
# Sockets that libcurl wants watched

libcurl tells `sock_cb` what it wants of a socket when that changes; a wait of asio ends
with its first completion. `Mapped` is what holds of the socket objects, and an action is
`Inert` when it changes neither what libcurl wants nor what is being waited for.
-/
namespace CsiHttp.Client

open Lib Lib.Text Lib.Runs

/-- The transfer that uses the socket `s`, and the last action passed to `sock_cb`. -/
def demandNext (s : Nat) (q : Option (Nat × Poll)) : Obs → Option (Nat × Poll)
  | .opened s' | .closed s' => if s' = s then none else q
  | .sock h s' what _ => if s' = s then some (h, what) else q
  | .started h => if q.map Prod.fst = some h then none else q
  | _ => q

def demand (s : Nat) (log : List Obs) : Option (Nat × Poll) := log.foldl (demandNext s) none

/-- `output` is the direction. -/
def Poll.wants : Poll → (output : Bool) → Bool
  | .pollIn, output => !output
  | .pollOut, output => output
  | .pollInOut, _ => true
  | .pollRemove, _ => false

/-- Observations that no demand depends on. -/
def Obs.Idle : Obs → Prop
  | .opened _ | .closed _ | .sock _ _ _ _ | .started _ => False
  | _ => True

theorem demand_append_idle {l : List Obs} (s : Nat) (log : List Obs) (hl : ∀ o ∈ l, o.Idle) :
    demand s (log ++ l) = demand s log := by
  unfold demand
  rw [List.foldl_append]
  generalize log.foldl (demandNext s) none = q
  induction l with
  | nil => rfl
  | cons o l ih =>
    obtain ⟨ho, hl⟩ := List.forall_mem_cons.mp hl
    have hnext : demandNext s q o = q := by
      cases o with
      | opened s' => exact ho.elim
      | closed s' => exact ho.elim
      | sock h s' what live => exact ho.elim
      | started h => exact ho.elim
      | _ => rfl
    rw [List.foldl_cons, hnext, ih hl]

theorem demand_concat (s : Nat) (log : List Obs) (o : Obs) :
    demand s (log ++ [o]) = demandNext s (demand s log) o := List.foldl_concat _ _ _ _

namespace HttpClient

/-- A wait on the socket object `o` is outstanding, or its completion is queued. -/
def Waits (c : HttpClient) (o : Nat) (output : Bool) : Prop :=
  ∃ w : Watch, w.socket = o ∧ w.output = output ∧
    (w ∈ c.watches ∨ ∃ e, .socketCb w e ∈ c.queue)

/-- What an unfinished transfer wants of the socket `s` is waited for. -/
def Met (c : HttpClient) (s : Nat) (output : Bool) : Prop :=
  ∀ o h what, c.socketMap s = some o → demand s c.log = some (h, what) →
    c.curl.busy h = true → what.wants output = true → c.Waits o output

/-- Every open socket is watched as the unfinished transfer that uses it wants. -/
def Watched (c : HttpClient) : Prop := c.fault = none → ∀ s output, c.Met s output

/-- A socket object that has been created and is no longer open. -/
def Closed (c : HttpClient) (o : Nat) : Prop :=
  o < c.nextSocket ∧ ∀ s, c.sockets o ≠ some ⟨s, true⟩

/-- Work that may be queued: only a closed socket is deleted or has failed. -/
def Sound (c : HttpClient) : Work → Prop
  | .deleteSocket o => c.Closed o
  | .socketCb w e => e ≠ .success → c.Closed w.socket
  | _ => True

structure Mapped (c : HttpClient) : Prop where
  isOpen : ∀ s o, c.socketMap s = some o → c.sockets o = some ⟨s, true⟩
  assigned : ∀ s o, c.curl.assigned s = some o → c.socketMap s = some o
  fresh : ∀ o, c.nextSocket ≤ o → c.sockets o = none
  sound : ∀ w ∈ c.queue, c.Sound w

/-- Nothing changes of what is wanted, and every wait stays. -/
structure Inert (c d : HttpClient) : Prop where
  socketMap : d.socketMap = c.socketMap
  sockets : d.sockets = c.sockets
  nextSocket : d.nextSocket = c.nextSocket
  assigned : ∀ s o, d.curl.assigned s = some o →
    c.curl.assigned s = some o ∨ c.socketMap s = some o
  busy : ∀ h, d.curl.busy h = true → c.curl.busy h = true
  watches : ∀ w ∈ c.watches, w ∈ d.watches
  queue : ∀ w ∈ c.queue, w ∈ d.queue
  posted : ∀ w ∈ d.queue, w ∈ c.queue ∨ c.Sound w
  log : ∃ l, d.log = c.log ++ l ∧ ∀ o ∈ l, o.Idle

variable {c d e : HttpClient} {s o h : Nat} {output : Bool}

theorem mapped_new (method : Nat → Nat) (content : Nat → Bytes) : Mapped (new method content) where
  isOpen _ _ hs := by cases hs
  assigned _ _ hs := by cases hs
  fresh _ _ := rfl
  sound _ hw := by cases hw

theorem Mapped.lt_nextSocket (hm : Mapped c) (hs : c.sockets o ≠ none) : o < c.nextSocket := by
  by_contra hge
  exact hs (hm.fresh o (by omega))

/-- Two sockets never share an object. -/
theorem Mapped.inj (hm : Mapped c) {s' : Nat} (hs : c.socketMap s = some o)
    (hs' : c.socketMap s' = some o) : s = s' := by
  have heq := (hm.isOpen s o hs).symm.trans (hm.isOpen s' o hs')
  exact congrArg TcpSocket.descriptor (Option.some.inj heq)

theorem Mapped.not_closed (hm : Mapped c) (hs : c.socketMap s = some o) : ¬ c.Closed o :=
  fun hc => hc.2 s (hm.isOpen s o hs)

theorem closed_congr (hs : d.sockets = c.sockets) (hn : d.nextSocket = c.nextSocket) :
    d.Closed o ↔ c.Closed o := by
  unfold Closed
  rw [hs, hn]

theorem sound_congr (hs : d.sockets = c.sockets) (hn : d.nextSocket = c.nextSocket) (w : Work) :
    d.Sound w ↔ c.Sound w := by
  cases w with
  | perform h => exact Iff.rfl
  | pollRemove h => exact Iff.rfl
  | deleteSocket o => exact closed_congr hs hn
  | socketCb w e => exact imp_congr_right (fun _ => closed_congr hs hn)

theorem Inert.refl (c : HttpClient) : Inert c c where
  socketMap := rfl
  sockets := rfl
  nextSocket := rfl
  assigned _ _ := .inl
  busy _ := id
  watches _ := id
  queue _ := id
  posted _ := .inl
  log := ⟨[], (List.append_nil _).symm, fun _ ho => by cases ho⟩

theorem Inert.trans (hcd : Inert c d) (hde : Inert d e) : Inert c e where
  socketMap := hde.socketMap.trans hcd.socketMap
  sockets := hde.sockets.trans hcd.sockets
  nextSocket := hde.nextSocket.trans hcd.nextSocket
  assigned s o hs := by
    obtain hs | hs := hde.assigned s o hs
    · exact hcd.assigned s o hs
    · exact .inr (hcd.socketMap ▸ hs)
  busy h hb := hcd.busy h (hde.busy h hb)
  watches w hw := hde.watches w (hcd.watches w hw)
  queue w hw := hde.queue w (hcd.queue w hw)
  posted w hw := by
    obtain hw | hw := hde.posted w hw
    · exact hcd.posted w hw
    · exact .inr ((sound_congr hcd.sockets hcd.nextSocket w).mp hw)
  log := by
    obtain ⟨l, hl, hn⟩ := hcd.log
    obtain ⟨l', hl', hn'⟩ := hde.log
    refine ⟨l ++ l', by rw [hl', hl, List.append_assoc], fun o ho => ?_⟩
    exact (List.mem_append.mp ho).elim (hn o) (hn' o)

theorem Inert.mapped (hi : Inert c d) (hm : Mapped c) : Mapped d where
  isOpen s o hs := by
    rw [hi.sockets]
    exact hm.isOpen s o (hi.socketMap ▸ hs)
  assigned s o hs := by
    rw [hi.socketMap]
    exact (hi.assigned s o hs).elim (hm.assigned s o) id
  fresh o ho := by
    rw [hi.sockets]
    exact hm.fresh o (hi.nextSocket ▸ ho)
  sound w hw := by
    rw [sound_congr hi.sockets hi.nextSocket]
    exact (hi.posted w hw).elim (hm.sound w) id

theorem Inert.demand (hi : Inert c d) (s : Nat) : demand s d.log = demand s c.log := by
  obtain ⟨l, hl, hn⟩ := hi.log
  rw [hl, demand_append_idle s c.log hn]

theorem Inert.waits (hi : Inert c d) (hw : c.Waits o output) : d.Waits o output := by
  obtain ⟨w, hs, ho, hw⟩ := hw
  refine ⟨w, hs, ho, ?_⟩
  obtain hw | ⟨e, hw⟩ := hw
  · exact .inl (hi.watches w hw)
  · exact .inr ⟨e, hi.queue _ hw⟩

theorem Inert.met (hi : Inert c d) (hm : c.Met s output) : d.Met s output := by
  intro o h what hs hd hb hw
  rw [hi.socketMap] at hs
  rw [hi.demand] at hd
  exact hi.waits (hm o h what hs hd (hi.busy h hb) hw)

/-! ## Inert actions -/

/-- Only contexts, the timer and the crash change. -/
theorem Inert.aside (hm : d.socketMap = c.socketMap) (hs : d.sockets = c.sockets)
    (hn : d.nextSocket = c.nextSocket) (hc : d.curl = c.curl) (hw : d.watches = c.watches)
    (hq : d.queue = c.queue) (hl : d.log = c.log) : Inert c d where
  socketMap := hm
  sockets := hs
  nextSocket := hn
  assigned s o hs := .inl (hc ▸ hs)
  busy h hb := hc ▸ hb
  watches w h := hw ▸ h
  queue w h := hq ▸ h
  posted w h := .inl (hq ▸ h)
  log := ⟨[], by rw [hl, List.append_nil], fun _ ho => by cases ho⟩

theorem inert_note {o : Obs} (c : HttpClient) (ho : o.Idle) : Inert c (c.note o) :=
  { Inert.refl c with log := ⟨[o], rfl, fun _ ho' => List.mem_singleton.mp ho' ▸ ho⟩ }

theorem inert_crash (c : HttpClient) (f : Fault) : Inert c (c.crash f) :=
  .aside rfl rfl rfl rfl rfl rfl rfl

theorem inert_updateContext (c : HttpClient) (h : Nat) (f : CallContext → CallContext) :
    Inert c (c.updateContext h f) := .aside rfl rfl rfl rfl rfl rfl rfl

theorem inert_post {w : Work} (c : HttpClient) (hw : c.Sound w) : Inert c (c.post w) :=
  { Inert.refl c with
    queue := fun _ hw' => List.mem_append_left _ hw'
    posted := fun w' hw' => by
      obtain hw' | hw' := List.mem_append.mp hw'
      · exact .inl hw'
      · exact .inr (List.mem_singleton.mp hw' ▸ hw)
    log := ⟨[], (List.append_nil _).symm, fun _ ho => by cases ho⟩ }

theorem inert_performAsync (c : HttpClient) (h : Nat) : Inert c (c.performAsync h) :=
  (inert_updateContext c h _).trans (inert_post _ trivial)

theorem inert_assign (c : HttpClient) (s : Nat) (o : Option Nat)
    (ho : ∀ p, o = some p → c.socketMap s = some p) : Inert c (c.assign s o) :=
  { Inert.refl c with
    assigned := fun s' p hs => by
      rw [assign_assigned, Function.update_apply] at hs
      split at hs
      · next hss => exact .inr (hss ▸ ho p hs)
      · exact .inl hs
    log := ⟨[], (List.append_nil _).symm, fun _ ho => by cases ho⟩ }

theorem inert_timerCb (c : HttpClient) (e : ErrorCode) : Inert c (c.timerCb e) := by
  cases e with
  | success => exact inert_note c trivial
  | operationAborted => exact .refl c
  | failure => exact .refl c

theorem inert_multiTimerCb (c : HttpClient) (ms : Int) : Inert c (c.multiTimerCb ms) := by
  unfold multiTimerCb
  split
  · exact .aside rfl rfl rfl rfl rfl rfl rfl
  · refine Inert.trans ?_ (inert_timerCb _ _)
    exact .aside rfl rfl rfl rfl rfl rfl rfl

theorem inert_watch (hm : Mapped c) (o h : Nat) (output : Bool) :
    Inert c (c.watch o h output) := by
  unfold watch
  split
  · next t ht =>
    split
    · exact { Inert.refl c with
        watches := fun _ hw => List.mem_append_left _ hw
        log := ⟨[], (List.append_nil _).symm, fun _ ho => by cases ho⟩ }
    · next hopen =>
      refine inert_post c (fun _ => ⟨hm.lt_nextSocket (by rw [ht]; exact Option.some_ne_none t), ?_⟩)
      intro s hs
      rw [show c.sockets o = some t from ht] at hs
      obtain rfl := Option.some.inj hs
      exact hopen rfl
  · exact inert_crash c _

theorem inert_removal (h : Nat) : KeptByRemoval h Inert where
  refl := .refl
  trans := .trans
  performAsync := inert_performAsync
  called c := inert_note (o := .called h (c.contexts h)) c trivial
  storeResult _ := .aside rfl rfl rfl rfl rfl rfl rfl
  curlStop c := inert_updateContext c h _
  posted c := inert_post c trivial

theorem inert_polled (hm : Mapped c) (h o : Nat) (what : Poll) (again : List Nat) :
    Inert c (c.polled h o what again) := by
  cases what with
  | pollIn => exact inert_watch hm o h false
  | pollOut => exact inert_watch hm o h true
  | pollInOut =>
    have hin := inert_watch hm o h false
    exact hin.trans (inert_watch (hin.mapped hm) o h true)
  | pollRemove => exact (inert_removal h).pollRemoved c again

/-! ## Sockets are opened and closed -/

theorem not_mapped_of_free (hm : Mapped c) (hs : c.descriptorOpen s = false) :
    c.socketMap s = none := by
  cases ho : c.socketMap s with
  | none => rfl
  | some o =>
    have hopen := hm.isOpen s o ho
    have hlt : o < c.nextSocket := hm.lt_nextSocket (by rw [hopen]; exact Option.some_ne_none _)
    have hany : c.descriptorOpen s = true := by
      rw [descriptorOpen, List.any_eq_true]
      exact ⟨o, List.mem_range.mpr hlt, by rw [hopen, beq_self_eq_true]⟩
    exact absurd (hs.symm.trans hany) Bool.false_ne_true

theorem opensocketCb_mapped (hm : Mapped c) (hs : c.descriptorOpen s = false)
    (supported opened : Bool) : Mapped (c.opensocketCb supported opened s) := by
  have hnone := not_mapped_of_free hm hs
  unfold opensocketCb
  split
  · have hclosed : ∀ o, c.Closed o → o < c.nextSocket + 1 ∧
        ∀ s', Function.update c.sockets c.nextSocket (some ⟨s, true⟩) o ≠ some ⟨s', true⟩ := by
      intro o ho
      refine ⟨Nat.lt_succ_of_lt ho.1, fun s' hs' => ho.2 s' ?_⟩
      rwa [Function.update_of_ne (Nat.ne_of_lt ho.1)] at hs'
    simp only [hnone, Option.getD_none]
    constructor
    · intro s' o ho
      simp only [note, Function.update_apply] at ho ⊢
      split at ho
      · next hss =>
        obtain rfl := Option.some.inj ho
        rw [if_pos rfl, hss]
      · have hopen := hm.isOpen s' o ho
        have hlt : o < c.nextSocket := hm.lt_nextSocket (by rw [hopen]; exact Option.some_ne_none _)
        rw [if_neg (Nat.ne_of_lt hlt), hopen]
    · intro s' o ho
      have hmap := hm.assigned s' o ho
      have hss : s' ≠ s := by
        intro hss
        rw [hss, hnone] at hmap
        cases hmap
      simp only [note, Function.update_of_ne hss]
      exact hmap
    · intro o ho
      have hge : c.nextSocket + 1 ≤ o := ho
      simp only [note, Function.update_of_ne (show o ≠ c.nextSocket by omega)]
      exact hm.fresh o (by omega)
    · intro w hw
      have hsound := hm.sound w hw
      cases w with
      | perform h => trivial
      | pollRemove h => trivial
      | deleteSocket o => exact hclosed o hsound
      | socketCb w e => exact fun he => hclosed w.socket (hsound he)
  · exact hm

theorem opensocketCb_met (hm : Mapped c) {s' : Nat} (hs : c.descriptorOpen s' = false)
    (supported opened : Bool) (hmet : c.Met s output) :
    (c.opensocketCb supported opened s').Met s output := by
  have hnone := not_mapped_of_free hm hs
  unfold opensocketCb
  split
  · intro o h what ho hd hb hw
    simp only [note] at ho hd
    rw [demand_concat] at hd
    by_cases hss : s = s'
    · simp [demandNext, hss] at hd
    · rw [Function.update_of_ne hss] at ho
      exact hmet o h what ho (by simpa [demandNext, Ne.symm hss] using hd) hb hw
  · exact hmet

/-- `closesocket_cb` on a socket of the client. -/
theorem closesocketCb_of_mapped (hs : c.socketMap s = some o) : c.closesocketCb s =
    { c with
      log := c.log ++ [.closed s]
      watches := c.watches.filter (fun w => w.socket != o)
      queue := c.queue ++ (c.watches.filter (fun w => w.socket == o)).map
        (fun w => .socketCb w .operationAborted) ++ [.deleteSocket o]
      sockets := Function.update c.sockets o ((c.sockets o).map (fun t => { t with isOpen := false }))
      curl := c.curl.assign s none
      socketMap := Function.update c.socketMap s none } := by
  simp only [closesocketCb, note, hs]
  rfl

theorem closesocketCb_of_unmapped (hs : c.socketMap s = none) :
    c.closesocketCb s = c.note (.closed s) := by
  simp only [closesocketCb, note, hs]

theorem closesocketCb_log (c : HttpClient) (s : Nat) :
    (c.closesocketCb s).log = c.log ++ [.closed s] := by
  cases hs : c.socketMap s with
  | none => rw [closesocketCb_of_unmapped hs, note]
  | some o => rw [closesocketCb_of_mapped hs]

theorem closesocketCb_socketMap (c : HttpClient) {s' : Nat} (hss : s ≠ s') :
    (c.closesocketCb s').socketMap s = c.socketMap s := by
  cases hs : c.socketMap s' with
  | none =>
    rw [closesocketCb_of_unmapped hs]
    rfl
  | some o =>
    rw [closesocketCb_of_mapped hs]
    exact Function.update_of_ne hss _ _

theorem closesocketCb_unmaps (c : HttpClient) (s : Nat) : (c.closesocketCb s).socketMap s = none := by
  cases hs : c.socketMap s with
  | none =>
    rw [closesocketCb_of_unmapped hs]
    exact hs
  | some o =>
    rw [closesocketCb_of_mapped hs]
    exact Function.update_self _ _ _

theorem closesocketCb_mapped (hm : Mapped c) (s : Nat) : Mapped (c.closesocketCb s) := by
  cases hs : c.socketMap s with
  | none =>
    rw [closesocketCb_of_unmapped hs]
    exact { hm with }
  | some o =>
    have hopen := hm.isOpen s o hs
    have hlt : o < c.nextSocket := hm.lt_nextSocket (by rw [hopen]; exact Option.some_ne_none _)
    rw [closesocketCb_of_mapped hs, hopen]
    have hclosed : ∀ o', o' = o ∨ c.Closed o' → o' < c.nextSocket ∧ ∀ s',
        Function.update c.sockets o (some ⟨s, false⟩) o' ≠ some ⟨s', true⟩ := by
      intro o' ho'
      by_cases hoo : o' = o
      · refine ⟨hoo ▸ hlt, fun s' => ?_⟩
        rw [hoo, Function.update_self]
        exact fun hs' => by cases hs'
      · have hc := ho'.resolve_left hoo
        refine ⟨hc.1, fun s' => ?_⟩
        rw [Function.update_of_ne hoo]
        exact hc.2 s'
    constructor
    · intro s' o' ho'
      simp only [Function.update_apply] at ho' ⊢
      split at ho'
      · cases ho'
      · next hss =>
        have hoo : o' ≠ o := fun hoo => hss (hm.inj ho' (hoo ▸ hs))
        rw [if_neg hoo]
        exact hm.isOpen s' o' ho'
    · intro s' o' ho'
      simp only [Curl.assign, Function.update_apply] at ho' ⊢
      split at ho'
      · cases ho'
      · next hss =>
        rw [if_neg hss]
        exact hm.assigned s' o' ho'
    · intro o' ho'
      have hoo : o' ≠ o := by
        have hge : c.nextSocket ≤ o' := ho'
        omega
      simp only [Function.update_of_ne hoo]
      exact hm.fresh o' ho'
    · intro w hw
      simp only [List.append_assoc, List.mem_append, List.mem_map, List.mem_singleton] at hw
      obtain hw | ⟨w', hw', rfl⟩ | rfl := hw
      · have hsound := hm.sound w hw
        cases w with
        | perform h => trivial
        | pollRemove h => trivial
        | deleteSocket o' => exact hclosed o' (.inr hsound)
        | socketCb w e => exact fun he => hclosed w.socket (.inr (hsound he))
      · exact fun _ => hclosed w'.socket (.inl (by simpa using (List.mem_filter.mp hw').2))
      · exact hclosed o (.inl rfl)

theorem demand_closed {s' : Nat} (hss : s ≠ s') (log : List Obs) :
    demand s (log ++ [.closed s']) = demand s log := by
  rw [demand_concat]
  exact if_neg (Ne.symm hss)

theorem closesocketCb_met (hm : Mapped c) (s' : Nat) (hmet : c.Met s output) :
    (c.closesocketCb s').Met s output := by
  cases hs : c.socketMap s' with
  | none =>
    rw [closesocketCb_of_unmapped hs]
    intro o h what ho hd hb hw
    have hss : s ≠ s' := fun hss => nomatch (hss ▸ hs).symm.trans ho
    exact hmet o h what ho ((demand_closed hss c.log).symm.trans hd) hb hw
  | some o' =>
    rw [closesocketCb_of_mapped hs]
    intro o h what ho hd hb hw
    by_cases hss : s = s'
    · rw [hss] at ho
      exact nomatch (Function.update_self s' none c.socketMap).symm.trans ho
    · have ho' : c.socketMap s = some o := (Function.update_of_ne hss _ _).symm.trans ho
      have hoo : o ≠ o' := fun hoo => hss (hm.inj ho' (hoo ▸ hs))
      obtain ⟨w, hws, hwo, hwait⟩ :=
        hmet o h what ho' ((demand_closed hss c.log).symm.trans hd) hb hw
      refine ⟨w, hws, hwo, ?_⟩
      obtain hwait | ⟨e, hwait⟩ := hwait
      · exact .inl (List.mem_filter.mpr ⟨hwait, by simp [hws, hoo]⟩)
      · exact .inr ⟨e, List.mem_append_left _ (List.mem_append_left _ hwait)⟩

/-! ## Socket callbacks -/

theorem Mapped.lookup (hm : Mapped c) (s : Nat) : c.lookup s = c.socketMap s := by
  unfold HttpClient.lookup
  cases hs : c.curl.assigned s with
  | none => rfl
  | some o => rw [hm.assigned s o hs, Option.some_or]

theorem note_mapped (hm : Mapped c) (o : Obs) : Mapped (c.note o) := { hm with }

theorem watch_open (hs : c.sockets o = some ⟨s, true⟩) (h : Nat) (output : Bool) :
    c.watch o h output = { c with watches := c.watches ++ [⟨o, h, output⟩] } := by
  simp only [watch, hs, if_true]

theorem watch_waits (hs : c.sockets o = some ⟨s, true⟩) (h : Nat) (output : Bool) :
    (c.watch o h output).Waits o output := by
  rw [watch_open hs]
  exact ⟨⟨o, h, output⟩, rfl, rfl, .inl (List.mem_append_right _ (List.mem_singleton.mpr rfl))⟩

/-- A socket that is open is waited for as the action says. -/
theorem polled_waits (hs : c.sockets o = some ⟨s, true⟩) {what : Poll}
    (hw : what.wants output = true) (h : Nat) (again : List Nat) :
    (c.polled h o what again).Waits o output := by
  cases what with
  | pollIn =>
    obtain rfl : output = false := by simpa [Poll.wants] using hw
    exact watch_waits hs h false
  | pollOut =>
    obtain rfl : output = true := hw
    exact watch_waits hs h true
  | pollInOut =>
    have hs' : (c.watch o h false).sockets o = some ⟨s, true⟩ := by
      rw [watch_open hs]
      exact hs
    cases output with
    | false =>
      refine ⟨⟨o, h, false⟩, rfl, rfl, .inl ?_⟩
      simp only [polled, watch_open hs']
      rw [watch_open hs]
      exact List.mem_append_left _ (List.mem_append_right _ (List.mem_singleton.mpr rfl))
    | true => exact watch_waits hs' h true
  | pollRemove => exact absurd hw Bool.false_ne_true

/-- Every outcome of `sock_cb`: the context is lost, or all it does is inert once the
callback is noted. -/
theorem sockCb_cases (hm : Mapped c) (h s : Nat) (what : Poll) (again : List Nat) :
    (c.sockCb h s what again).fault.isSome = true ∨
      ∃ live, Inert (c.note (.sock h s what live)) (c.sockCb h s what again) ∧
        ∀ o output, c.socketMap s = some o → what.wants output = true →
          (c.sockCb h s what again).Waits o output := by
  cases hp : (c.contexts h).curlPrivate with
  | false =>
    rw [sockCb_of_null hp]
    exact .inl rfl
  | true =>
    refine .inr ⟨(c.contexts h).curlShared, ?_⟩
    cases hs : c.socketMap s with
    | none =>
      rw [sockCb_of_unknown hp ((hm.lookup s).trans hs)]
      exact ⟨.refl _, fun o _ ho => by cases ho⟩
    | some o =>
      let d := c.note (.sock h s what (c.contexts h).curlShared)
      have hi : Inert d (d.assign s (some o)) :=
        inert_assign d s (some o) (fun p hp => hs.trans hp)
      have hmd : Mapped (d.assign s (some o)) := hi.mapped (note_mapped hm _)
      rw [sockCb_of_known hp ((hm.lookup s).trans hs)]
      refine ⟨hi.trans (inert_polled hmd h o what again), fun o' output ho hw => ?_⟩
      obtain rfl := Option.some.inj ho
      exact polled_waits (hmd.isOpen s o hs) hw h again

theorem demand_sock {s' : Nat} (hss : s ≠ s') (log : List Obs) (h : Nat) (what : Poll)
    (live : Bool) : demand s (log ++ [.sock h s' what live]) = demand s log := by
  rw [demand_concat]
  exact if_neg (Ne.symm hss)

theorem sockCb_mapped (hm : Mapped c) {s' : Nat} {what : Poll} {again : List Nat}
    (hf : (c.sockCb h s' what again).fault = none) : Mapped (c.sockCb h s' what again) := by
  obtain hcrash | ⟨live, hi, -⟩ := sockCb_cases hm h s' what again
  · rw [hf] at hcrash
    exact absurd hcrash Bool.false_ne_true
  · exact hi.mapped (note_mapped hm _)

theorem sockCb_met (hm : Mapped c) {s' : Nat} {what : Poll} {again : List Nat}
    (hf : (c.sockCb h s' what again).fault = none) (hmet : s ≠ s' → c.Met s output) :
    (c.sockCb h s' what again).Met s output := by
  obtain hcrash | ⟨live, hi, hwait⟩ := sockCb_cases hm h s' what again
  · rw [hf] at hcrash
    exact absurd hcrash Bool.false_ne_true
  · by_cases hss : s = s'
    · subst hss
      intro o h' what' ho hd hb hw
      rw [hi.demand, note, demand_concat, demandNext, if_pos rfl] at hd
      obtain ⟨rfl, rfl⟩ := Prod.mk.inj (Option.some.inj hd)
      exact hwait o output (hi.socketMap ▸ ho) hw
    · refine hi.met fun o h' what' ho hd hb hw => ?_
      exact hmet hss o h' what' ho ((demand_sock hss c.log h what live).symm.trans hd) hb hw

/-! ## Calls of libcurl -/

/-- What libcurl does ends or renews what the transfer `h` wants of the socket `s`. -/
def Renews (s h : Nat) : CurlAct → Prop
  | .sockCb _ s' _ _ => s' = s
  | .closesocket s' => s' = s
  | .finish h' => h' = h
  | _ => False

instance (s h : Nat) : DecidablePred (Renews s h)
  | .sockCb _ s' _ _ => inferInstanceAs (Decidable (s' = s))
  | .closesocket s' => inferInstanceAs (Decidable (s' = s))
  | .finish h' => inferInstanceAs (Decidable (h' = h))
  | .opensocket _ _ _ | .multiTimer _ | .response _ _ | .read _ _ | .header _ _ | .write _ _ =>
    isFalse id

/-- What one action of libcurl does to the socket `s` and the direction `output`. -/
structure Kept (s : Nat) (output : Bool) (c d : HttpClient) (a : CurlAct) : Prop where
  mapped : Mapped d
  opened : d.socketMap s ≠ none → c.socketMap s ≠ none ∨ a = .opensocket true true s
  met : c.Met s output → d.Met s output
  owed : d.Met s output ∨ demand s d.log = demand s c.log ∧ d.socketMap s = c.socketMap s
  renewed : ∀ h what, demand s c.log = some (h, what) → Renews s h a → d.Met s output

theorem Kept.inert {a : CurlAct} (hm : Mapped c) (hi : Inert c d)
    (ha : ∀ h what, demand s c.log = some (h, what) → ¬ Renews s h a) : Kept s output c d a where
  mapped := hi.mapped hm
  opened hs := .inl (hi.socketMap ▸ hs)
  met := hi.met
  owed := .inr ⟨hi.demand s, by rw [hi.socketMap]⟩
  renewed h what hd hr := absurd hr (ha h what hd)

theorem inert_buffers (c : HttpClient) (h : Nat) (f : CallContext → CallContext) {o : Obs}
    (ho : o.Idle) : Inert c ((c.updateContext h f).note o) :=
  (inert_updateContext c h f).trans (inert_note _ ho)

theorem finish_kept (hm : Mapped c) (h' : Nat) (output : Bool) :
    Kept s output c (note { c with curl := c.curl.finish h' }
      (.finished h' (c.curl.responseCode h'))) (.finish h') := by
  have hbusy : ∀ h, (c.curl.finish h').busy h = true → h ≠ h' ∧ c.curl.busy h = true := by
    intro h hb
    by_cases hh : h = h'
    · simp [hh, Curl.busy, Curl.finish] at hb
    · simp only [Curl.busy, Curl.finish, Function.update_of_ne hh] at hb
      exact ⟨hh, hb⟩
  have hi : Inert c { c with curl := c.curl.finish h' } :=
    { Inert.refl c with
      assigned := fun _ _ => .inl
      busy := fun h hb => (hbusy h hb).2 }
  have hi' := hi.trans (inert_note (o := .finished h' (c.curl.responseCode h')) _ trivial)
  refine ⟨hi'.mapped hm, .inl, hi'.met, .inr ⟨hi'.demand s, rfl⟩, fun h what hd hr => ?_⟩
  intro o h2 what2 _ hd2 hb _
  rw [hi'.demand, hd] at hd2
  obtain ⟨rfl, -⟩ := Prod.mk.inj (Option.some.inj hd2)
  exact absurd hr.symm (hbusy h hb).1

theorem opensocketCb_kept (hm : Mapped c) {supported opened : Bool} {s' : Nat}
    (hfree : c.descriptorOpen s' = false) (s : Nat) (output : Bool) :
    Kept s output c (c.opensocketCb supported opened s') (.opensocket supported opened s') := by
  refine ⟨opensocketCb_mapped hm hfree _ _, fun hs => ?_, opensocketCb_met hm hfree _ _, ?_,
    fun _ _ _ hr => hr.elim⟩
  · unfold opensocketCb at hs
    split at hs
    · next hso =>
      obtain ⟨rfl, rfl⟩ := Bool.and_eq_true_iff.mp hso
      by_cases hss : s = s'
      · exact .inr (by rw [hss])
      · exact .inl ((Function.update_of_ne hss _ c.socketMap) ▸ hs)
    · exact .inl hs
  · unfold opensocketCb
    split
    · by_cases hss : s = s'
      · left
        intro o h what _ hd
        rw [note, demand_concat, demandNext, if_pos hss.symm] at hd
        cases hd
      · right
        refine ⟨?_, Function.update_of_ne hss _ _⟩
        rw [note, demand_concat]
        exact if_neg (Ne.symm hss)
    · exact .inr ⟨rfl, rfl⟩

theorem closesocketCb_kept (hm : Mapped c) (s' s : Nat) (output : Bool) :
    Kept s output c (c.closesocketCb s') (.closesocket s') := by
  have hclosed : s' = s → (c.closesocketCb s').Met s output := by
    rintro rfl o h what ho hd
    rw [closesocketCb_log, demand_concat, demandNext, if_pos rfl] at hd
    cases hd
  refine ⟨closesocketCb_mapped hm s', fun hs => ?_, closesocketCb_met hm s', ?_,
    fun _ _ _ hr => hclosed hr⟩
  · by_cases hss : s = s'
    · subst hss
      exact absurd (closesocketCb_unmaps c s) hs
    · rw [closesocketCb_socketMap c hss] at hs
      exact .inl hs
  · by_cases hss : s = s'
    · exact .inl (hclosed hss.symm)
    · right
      rw [closesocketCb_log]
      exact ⟨demand_closed hss c.log, closesocketCb_socketMap c hss⟩

/-- A socket callback, after which libcurl may forget what is attached to the socket. -/
theorem sockCb_kept (hm : Mapped c) {h' s' : Nat} {what : Poll} {again : List Nat}
    (hi : Inert (c.sockCb h' s' what again) d) (hf : (c.sockCb h' s' what again).fault = none)
    (s : Nat) (output : Bool) : Kept s output c d (.sockCb h' s' what again) := by
  have hmet : (s ≠ s' → c.Met s output) → d.Met s output :=
    fun hne => hi.met (sockCb_met hm hf hne)
  -- what has become of the socket map and of what is wanted of the sockets
  have hlive : d.socketMap s = c.socketMap s ∧
      (s ≠ s' → demand s d.log = demand s c.log) := by
    obtain hcrash | ⟨live, hi', -⟩ := sockCb_cases hm h' s' what again
    · rw [hf] at hcrash
      exact absurd hcrash Bool.false_ne_true
    · refine ⟨congrFun (hi.socketMap.trans hi'.socketMap) s, fun hss => ?_⟩
      rw [hi.demand, hi'.demand]
      exact demand_sock hss c.log h' what live
  refine ⟨hi.mapped (sockCb_mapped hm hf), fun hs => .inl (hlive.1 ▸ hs),
    fun hm' => hmet (fun _ => hm'), ?_, ?_⟩
  · by_cases hss : s = s'
    · exact .inl (hmet (fun hne => absurd hss hne))
    · exact .inr ⟨hlive.2 hss, hlive.1⟩
  · intro _ _ _ hr
    exact hmet (fun hne => absurd (Eq.symm hr) hne)

theorem act_kept (hm : Mapped c) {a : CurlAct} (hact : c.act a = some d) (hf : d.fault = none)
    (s : Nat) (output : Bool) : Kept s output c d a := by
  cases acted_of_act hact with
  | opensocket supported opened s' hfree => exact opensocketCb_kept hm hfree s output
  | closesocket s' => exact closesocketCb_kept hm s' s output
  | sockCb h' s' what again hadd =>
    split at hf
    · next hremove =>
      rw [if_pos hremove]
      exact sockCb_kept hm (inert_assign _ s' none (fun _ hp => by cases hp)) hf s output
    · next hremove =>
      rw [if_neg hremove]
      exact sockCb_kept hm (.refl _) hf s output
  | multiTimer ms => exact .inert hm (inert_multiTimerCb c ms) (fun _ _ _ => id)
  | response h' code hb =>
    have hi : Inert c { c with curl := c.curl.respond h' code } :=
      { Inert.refl c with
        assigned := fun _ _ => .inl
        busy := fun _ hb => hb }
    exact .inert hm (hi.trans (inert_note (o := .response h' code) _ trivial)) (fun _ _ _ => id)
  | read h' n hb => exact .inert hm (inert_updateContext c h' _) (fun _ _ _ => id)
  | header h' line hb =>
    exact .inert hm (inert_buffers (o := .header h' line) c h' _ trivial) (fun _ _ _ => id)
  | write h' data hb =>
    exact .inert hm (inert_buffers (o := .body h' data) c h' _ trivial) (fun _ _ _ => id)
  | finish h' hb => exact finish_kept hm h' output

theorem acts_of_fault (as : List CurlAct) (hf : c.fault.isSome = true) : c.acts as = some c := by
  cases as with
  | nil => rfl
  | cons a as => rw [acts, if_pos hf]

theorem fault_of_acts {as : List CurlAct} (hacts : c.acts as = some d) (hf : d.fault = none) :
    c.fault = none := by
  by_contra hc
  obtain rfl := Option.some.inj ((acts_of_fault as (Option.isSome_iff_ne_none.mpr hc)).symm.trans
    hacts)
  exact hc hf

/-- A call of libcurl keeps what is met, and what is owed when it begins is either met or
still wanted when it returns. -/
theorem acts_kept {as : List CurlAct} (hm : Mapped c) (hacts : c.acts as = some d)
    (hf : d.fault = none) :
    Mapped d ∧ ∀ s output, (c.Met s output → d.Met s output) ∧
      (d.Met s output ∨ demand s d.log = demand s c.log ∧ d.socketMap s = c.socketMap s) ∧
      ∀ h what, demand s c.log = some (h, what) → (∃ a ∈ as, Renews s h a) → d.Met s output := by
  induction as generalizing c with
  | nil =>
    obtain rfl := Option.some.inj hacts
    refine ⟨hm, fun s output => ⟨id, .inr ⟨rfl, rfl⟩, ?_⟩⟩
    rintro _ _ _ ⟨a, ha, -⟩
    cases ha
  | cons a as ih =>
    rw [acts] at hacts
    split at hacts
    · next hcrash =>
      obtain rfl := Option.some.inj hacts
      rw [hf] at hcrash
      exact absurd hcrash Bool.false_ne_true
    · obtain ⟨e, he, hd⟩ := Option.bind_eq_some_iff.mp hacts
      have hfe := fault_of_acts hd hf
      have hk := act_kept hm he hfe
      obtain ⟨hmd, hrest⟩ := ih (hk 0 false).mapped hd
      refine ⟨hmd, fun s output => ?_⟩
      obtain ⟨hmet, howed, hren⟩ := hrest s output
      refine ⟨fun h => hmet ((hk s output).met h), ?_, ?_⟩
      · obtain hm' | ⟨hdem, hmap⟩ := (hk s output).owed
        · exact .inl (hmet hm')
        · rw [← hdem, ← hmap]
          exact howed
      · rintro h what hdem ⟨b, hb, hr⟩
        obtain rfl | hb := List.mem_cons.mp hb
        · exact hmet ((hk s output).renewed h what hdem hr)
        · obtain hm' | ⟨hdem', -⟩ := (hk s output).owed
          · exact hmet hm'
          · exact hren h what (hdem'.trans hdem) ⟨b, hb, hr⟩

/-! ## The flag `_curl_done` -/

/-- In a call that begins in `c`, libcurl stops watching a socket of the client on behalf of
the request `h`. -/
def Completes (c : HttpClient) (h : Nat) (as : List CurlAct) : Prop :=
  ∃ a ∈ as, match a with
    | .sockCb h' s .pollRemove _ =>
      h' = h ∧ (c.socketMap s ≠ none ∨ .opensocket true true s ∈ as)
    | _ => False

instance (c : HttpClient) (h : Nat) (as : List CurlAct) : Decidable (c.Completes h as) :=
  haveI : DecidablePred fun a : CurlAct => match a with
      | .sockCb h' s .pollRemove _ =>
        h' = h ∧ (c.socketMap s ≠ none ∨ .opensocket true true s ∈ as)
      | _ => False := fun a =>
    match a with
    | .sockCb h' s .pollRemove _ => inferInstanceAs (Decidable
        (h' = h ∧ (c.socketMap s ≠ none ∨ .opensocket true true s ∈ as)))
    | .sockCb _ _ .pollIn _ | .sockCb _ _ .pollOut _ | .sockCb _ _ .pollInOut _
    | .opensocket _ _ _ | .closesocket _ | .multiTimer _ | .response _ _ | .read _ _
    | .header _ _ | .write _ _ | .finish _ => isFalse id
  List.decidableBEx _ _

theorem updateContext_curlDone (c : HttpClient) (h' : Nat) (f : CallContext → CallContext)
    (hf : ∀ x, (f x).curlDone = x.curlDone) :
    ((c.updateContext h' f).contexts h).curlDone = (c.contexts h).curlDone := by
  simp only [updateContext, Function.update_apply]
  split
  · next hh => rw [hf, hh]
  · rfl

theorem watch_contexts (c : HttpClient) (o h : Nat) (output : Bool) :
    (c.watch o h output).contexts = c.contexts := by
  unfold watch
  split
  · split
    · rfl
    · rfl
  · rfl

theorem timerCb_contexts (c : HttpClient) (e : ErrorCode) : (c.timerCb e).contexts = c.contexts := by
  cases e with
  | success => rfl
  | operationAborted => rfl
  | failure => rfl

theorem curlDone_removal {h' : Nat} (hh : h ≠ h') : KeptByRemoval h'
    (fun c d => (d.contexts h).curlDone = (c.contexts h).curlDone) where
  refl _ := rfl
  trans hcd hde := hde.trans hcd
  performAsync c h'' :=
    updateContext_curlDone c h'' (fun x => { x with hasCallback := true }) (fun _ => rfl)
  called _ := rfl
  storeResult _ := congrArg CallContext.curlDone (Function.update_of_ne hh _ _)
  curlStop _ := congrArg CallContext.curlDone (Function.update_of_ne hh _ _)
  posted _ := rfl

theorem polled_curlDone {h' : Nat} {what : Poll} (c : HttpClient) (again : List Nat)
    (hw : what = .pollRemove → h ≠ h') :
    ((c.polled h' o what again).contexts h).curlDone = (c.contexts h).curlDone := by
  cases what with
  | pollIn => rw [polled, watch_contexts]
  | pollOut => rw [polled, watch_contexts]
  | pollInOut => rw [polled, watch_contexts, watch_contexts]
  | pollRemove => exact (curlDone_removal (hw rfl)).pollRemoved c again

/-- Only `CURL_POLL_REMOVE` on a socket of the client sets the flag. -/
theorem sockCb_curlDone (hm : Mapped c) {h' : Nat} {what : Poll} {again : List Nat}
    (hw : what = .pollRemove → h' = h → c.socketMap s = none) :
    ((c.sockCb h' s what again).contexts h).curlDone = (c.contexts h).curlDone := by
  cases hp : (c.contexts h').curlPrivate with
  | false =>
    rw [sockCb_of_null hp]
    rfl
  | true =>
    cases hs : c.socketMap s with
    | none =>
      rw [sockCb_of_unknown hp ((hm.lookup s).trans hs)]
      rfl
    | some o =>
      rw [sockCb_of_known hp ((hm.lookup s).trans hs)]
      refine (polled_curlDone _ again fun hr hh => ?_).trans rfl
      exact nomatch (hw hr hh.symm).symm.trans hs

theorem closesocketCb_contexts (c : HttpClient) (s : Nat) :
    (c.closesocketCb s).contexts = c.contexts := by
  cases hs : c.socketMap s with
  | none =>
    rw [closesocketCb_of_unmapped hs]
    rfl
  | some o => rw [closesocketCb_of_mapped hs]

theorem opensocketCb_contexts (c : HttpClient) (supported opened : Bool) (s : Nat) :
    (c.opensocketCb supported opened s).contexts = c.contexts := by
  unfold opensocketCb
  split
  · rfl
  · rfl

theorem multiTimerCb_contexts (c : HttpClient) (ms : Int) :
    (c.multiTimerCb ms).contexts = c.contexts := by
  unfold multiTimerCb
  split
  · rfl
  · exact timerCb_contexts _ _

theorem act_curlDone (hm : Mapped c) {a : CurlAct} (hact : c.act a = some d)
    (hw : ∀ s again, a = .sockCb h s .pollRemove again → c.socketMap s = none) :
    (d.contexts h).curlDone = (c.contexts h).curlDone := by
  cases acted_of_act hact with
  | opensocket supported opened s' hfree => rw [opensocketCb_contexts]
  | closesocket s' => rw [closesocketCb_contexts]
  | sockCb h' s' what again hadd =>
    have hd : ((c.sockCb h' s' what again).contexts h).curlDone = (c.contexts h).curlDone := by
      refine sockCb_curlDone hm (fun hr hh => hw s' again ?_)
      rw [hr, hh]
    split
    · exact hd
    · exact hd
  | multiTimer ms => rw [multiTimerCb_contexts]
  | response h' code hb => rfl
  | read h' n hb =>
    exact updateContext_curlDone c h' (fun x => { x with txUnread := x.txUnread.drop n })
      (fun _ => rfl)
  | header h' line hb =>
    exact updateContext_curlDone c h' (fun x => { x with rxHeaders := x.rxHeaders ++ [line] })
      (fun _ => rfl)
  | write h' data hb =>
    exact updateContext_curlDone c h' (fun x => { x with rxBuffer := x.rxBuffer ++ data })
      (fun _ => rfl)
  | finish h' hb => rfl

theorem acts_curlDone {as : List CurlAct} (hm : Mapped c) (hacts : c.acts as = some d)
    (hf : d.fault = none) (hn : ¬ c.Completes h as) :
    (d.contexts h).curlDone = (c.contexts h).curlDone := by
  induction as generalizing c with
  | nil =>
    obtain rfl := Option.some.inj hacts
    rfl
  | cons a as ih =>
    rw [acts] at hacts
    split at hacts
    · obtain rfl := Option.some.inj hacts
      rfl
    · obtain ⟨e, he, hd⟩ := Option.bind_eq_some_iff.mp hacts
      have hfe := fault_of_acts hd hf
      have hk := act_kept hm he hfe
      rw [ih (hk 0 false).mapped hd ?_, act_curlDone hm he ?_]
      · rintro s again rfl
        by_contra hs
        exact hn ⟨_, List.mem_cons_self, rfl, .inl hs⟩
      · rintro ⟨b, hb, hcomp⟩
        refine hn ⟨b, List.mem_cons_of_mem a hb, ?_⟩
        split at hcomp
        · next h' s again =>
          obtain ⟨hh, hs⟩ := hcomp
          refine ⟨hh, ?_⟩
          obtain hs | hs := hs
          · obtain hs | rfl := (hk s false).opened hs
            · exact .inl hs
            · exact .inr List.mem_cons_self
          · exact .inr (List.mem_cons_of_mem a hs)
        · exact hcomp.elim

/-! ## Handlers -/

theorem mem_or_eq_of_eraseIdx {α : Type} {l : List α} {i : Nat} {a b : α} (hi : l[i]? = some a)
    (hb : b ∈ l) : b = a ∨ b ∈ l.eraseIdx i := by
  obtain ⟨hlt, rfl⟩ := List.getElem?_eq_some_iff.mp hi
  have hsplit : l = l.take i ++ l[i] :: l.drop (i + 1) := by
    rw [← List.drop_eq_getElem_cons hlt, List.take_append_drop]
  rw [hsplit] at hb
  rw [List.eraseIdx_eq_take_drop_succ]
  obtain hb | hb := List.mem_append.mp hb
  · exact .inr (List.mem_append_left _ hb)
  · exact (List.mem_cons.mp hb).imp_right (List.mem_append_right _)

/-- A handler is taken out of the queue. -/
theorem erase_mapped (hm : Mapped c) (i : Nat) :
    Mapped { c with queue := c.queue.eraseIdx i } :=
  { hm with sound := fun w hw => hm.sound w (List.mem_of_mem_eraseIdx hw) }

/-- An object that is closed is deleted. -/
theorem deleteSocket_mapped (hm : Mapped c) (ho : c.Closed o) : Mapped (c.deleteSocket o) := by
  have hclosed : ∀ o', c.Closed o' → (c.deleteSocket o).Closed o' := by
    refine fun o' ho' => ⟨ho'.1, fun s hs => ?_⟩
    simp only [deleteSocket, Function.update_apply] at hs
    split at hs
    · cases hs
    · exact ho'.2 s hs
  refine ⟨fun s o' hs => ?_, hm.assigned, fun o' ho' => ?_, fun w hw => ?_⟩
  · have hne : o' ≠ o := fun hoo => hm.not_closed hs (hoo ▸ ho)
    exact (Function.update_of_ne hne _ _).trans (hm.isOpen s o' hs)
  · simp only [deleteSocket, Function.update_apply]
    split
    · rfl
    · exact hm.fresh o' ho'
  · have hsound := hm.sound w hw
    cases w with
    | perform h => trivial
    | pollRemove h => trivial
    | deleteSocket o' => exact hclosed o' hsound
    | socketCb w e => exact fun he => hclosed w.socket (hsound he)

theorem erase_waits {w : Work} {i : Nat} (hi : c.queue[i]? = some w) (hw : c.Waits o output)
    (hne : ∀ w' e, w = .socketCb w' e → w'.socket = o → w'.output ≠ output) :
    Waits { c with queue := c.queue.eraseIdx i } o output := by
  obtain ⟨w', hs, ho, hw'⟩ := hw
  refine ⟨w', hs, ho, hw'.imp_right ?_⟩
  rintro ⟨e, he⟩
  refine ⟨e, (mem_or_eq_of_eraseIdx hi he).resolve_left ?_⟩
  rintro rfl
  exact hne w' e rfl hs ho

end HttpClient

end CsiHttp.Client
