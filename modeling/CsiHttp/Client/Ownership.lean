import CsiHttp.Client.Transfers

/-!
# Who keeps a context alive

libcurl has a raw pointer to the context of a request, in `CURLOPT_PRIVATE`, and its easy handle,
which the destructor of the context frees. `_curl_shared` keeps the context alive meanwhile; when
`sock_cb` gives it up, the posted `_poll_remove` holds the context instead, until it has taken the
easy handle back. A request that libcurl refuses is never given up.
-/
namespace CsiHttp.Client

open Lib Lib.Text Lib.Runs

/-- What holds the context of a request, and what depends on it. -/
structure Custody where
  /-- `_curl_shared`. -/
  shared : Bool
  /-- `CURLOPT_PRIVATE`. -/
  pointer : Bool
  /-- The easy handle is in the multi handle. -/
  added : Bool
  /-- The posted calls of `_poll_remove`. -/
  removals : Nat
  refused : Bool
  deriving DecidableEq

namespace Custody

/-- The context is alive as long as libcurl may use it. `held` are the calls of `_poll_remove` that
are running. -/
structure Safe (held : Nat) (x : Custody) : Prop where
  pointer : x.pointer = true → x.shared = true
  added : x.added = true → x.shared = true ∨ 0 < x.removals + held

/-- And no longer, unless libcurl has refused it. -/
structure Tight (held : Nat) (x : Custody) : Prop where
  pointer : x.pointer = x.shared
  shared : x.shared = true ↔ x.added = true ∧ x.removals + held = 0
  once : x.removals + held ≤ 1
  pending : 0 < x.removals + held → x.added = true

/-- `sock_cb` gives the context up. -/
def giveUp (x : Custody) : Custody :=
  { x with shared := false, pointer := false, removals := x.removals + 1 }

variable {held : Nat} {x : Custody}

theorem safe_giveUp : Safe held x.giveUp where
  pointer hp := absurd hp Bool.false_ne_true
  added _ := by
    right
    dsimp only [giveUp]
    omega

theorem Tight.giveUp (h : Tight held x) (hp : x.pointer = true) : Tight held x.giveUp := by
  have hshared := h.pointer.symm.trans hp
  obtain ⟨hadded, hnone⟩ := h.shared.mp hshared
  have hone : x.giveUp.removals + held = 1 := by
    dsimp only [Custody.giveUp]
    omega
  refine ⟨rfl, iff_of_false Bool.false_ne_true (fun hx => ?_), Nat.le_of_eq hone, fun _ => hadded⟩
  omega

end Custody

namespace HttpClient

/-- The custody of request `h`. -/
def custody (h : Nat) (c : HttpClient) : Custody where
  shared := (c.contexts h).curlShared
  pointer := (c.contexts h).curlPrivate
  added := c.curl.added h
  removals := c.queue.count (.pollRemove h)
  refused := decide (.refused h ∈ c.log)

/-- What holds of the custody of a request in every state of a program that has not crashed. -/
def Owned (held h : Nat) (c : HttpClient) : Prop :=
  c.fault = none → (custody h c).Safe held ∧
    ((custody h c).refused = false → (custody h c).Tight held)

variable {h held : Nat} {c d : HttpClient}

/-! ## What leaves a request alone -/

theorem custody_of_same (hx : d.contexts h = c.contexts h) (ha : d.curl.added h = c.curl.added h)
    (hq : d.queue = c.queue) (hl : d.log = c.log) : custody h d = custody h c := by
  unfold custody
  rw [hx, ha, hq, hl]

theorem custody_note {o : Obs} (c : HttpClient) (ho : o ≠ .refused h) :
    custody h (c.note o) = custody h c := by
  have hmem : Obs.refused h ∈ c.log ++ [o] ↔ Obs.refused h ∈ c.log := by
    rw [List.mem_append, List.mem_singleton]
    exact or_iff_left (Ne.symm ho)
  unfold custody
  congr 1
  exact decide_eq_decide.mpr hmem

theorem custody_post {w : Work} (c : HttpClient) (hw : w ≠ .pollRemove h) :
    custody h (c.post w) = custody h c := by
  have hcount : (c.queue ++ [w]).count (.pollRemove h) = c.queue.count (.pollRemove h) := by
    rw [List.count_append, List.count_singleton, if_neg (by simpa using hw), Nat.add_zero]
  unfold custody
  congr 1

theorem custody_updateContext_ne {h' : Nat} (c : HttpClient) (f : CallContext → CallContext)
    (hh : h' ≠ h) : custody h (c.updateContext h' f) = custody h c :=
  custody_of_same (Function.update_of_ne hh.symm _ _) rfl rfl rfl

/-- A change of a context that concerns neither pointer. -/
theorem custody_updateContext (c : HttpClient) (h' : Nat) {f : CallContext → CallContext}
    (hshared : ∀ x, (f x).curlShared = x.curlShared)
    (hpointer : ∀ x, (f x).curlPrivate = x.curlPrivate) :
    custody h (c.updateContext h' f) = custody h c := by
  by_cases hh : h' = h
  · subst hh
    unfold custody
    rw [updateContext_self, hshared, hpointer]
    rfl
  · exact custody_updateContext_ne c f hh

theorem custody_performAsync (c : HttpClient) (h' : Nat) :
    custody h (c.performAsync h') = custody h c :=
  (custody_post _ Work.noConfusion).trans
    (custody_updateContext c h' (fun _ => rfl) (fun _ => rfl))

theorem custody_watch (c : HttpClient) (o h' : Nat) (output : Bool) :
    custody h (c.watch o h' output) = custody h c := by
  unfold watch
  split
  · split
    · rfl
    · exact custody_post c Work.noConfusion
  · rfl

theorem custody_cancelSocket (c : HttpClient) (o : Nat) :
    custody h (c.cancelSocket o) = custody h c := by
  have hnone : ((c.watches.filter (fun w => w.socket == o)).map
      (fun w => Work.socketCb w .operationAborted)).count (.pollRemove h) = 0 := by
    apply List.count_eq_zero.mpr
    intro hmem
    obtain ⟨w, -, hw⟩ := List.mem_map.mp hmem
    cases hw
  unfold custody cancelSocket
  dsimp only
  rw [List.count_append, hnone, Nat.add_zero]

theorem custody_closesocketCb (c : HttpClient) (s : Nat) :
    custody h (c.closesocketCb s) = custody h c := by
  have hnote : custody h (c.note (.closed s)) = custody h c := custody_note c Obs.noConfusion
  unfold closesocketCb
  dsimp only
  split
  · rename_i o _
    have hcancel := custody_cancelSocket (h := h) (c.note (.closed s)) o
    exact (custody_post _ Work.noConfusion).trans (hcancel.trans hnote)
  · exact hnote

theorem custody_opensocketCb (c : HttpClient) (supported opened : Bool) (s : Nat) :
    custody h (c.opensocketCb supported opened s) = custody h c := by
  unfold opensocketCb
  split
  · exact custody_note _ Obs.noConfusion
  · rfl

theorem custody_timerCb (c : HttpClient) (e : ErrorCode) : custody h (c.timerCb e) = custody h c := by
  cases e with
  | success => exact custody_note c Obs.noConfusion
  | operationAborted | failure => rfl

theorem custody_multiTimerCb (c : HttpClient) (ms : Int) :
    custody h (c.multiTimerCb ms) = custody h c := by
  unfold multiTimerCb
  split
  · rfl
  · exact custody_timerCb _ _

theorem custody_noteReadable (c : HttpClient) (w : Watch) (e : ErrorCode) :
    custody h (c.noteReadable w e) = custody h c := by
  unfold noteReadable
  split
  · exact custody_note c Obs.noConfusion
  · rfl

/-! ## Removal -/

theorem custody_invokeCallback (c : HttpClient) (h' : Nat) (again : List Nat) :
    custody h (c.invokeCallback h' again) = custody h c := by
  unfold invokeCallback
  split
  · refine List.foldlRecOn (motive := fun d => custody h d = custody h c) again performAsync
      (custody_note c Obs.noConfusion) ?_
    exact fun d hd h' _ => (custody_performAsync d h').trans hd
  · rfl

theorem custody_storeResult (c : HttpClient) (h' : Nat) :
    custody h (c.storeResult h') = custody h c := by
  unfold storeResult
  exact custody_updateContext c h' (fun _ => rfl) (fun _ => rfl)

theorem custody_pollRemoved (c : HttpClient) (again : List Nat) :
    custody h (c.pollRemoved h again) = (custody h c).giveUp := by
  have hbefore : custody h ((c.storeResult h).invokeCallback h again) = custody h c :=
    (custody_invokeCallback _ h again).trans (custody_storeResult c h)
  rw [← hbefore]
  unfold pollRemoved
  generalize (c.storeResult h).invokeCallback h again = d
  unfold custody Custody.giveUp
  simp only [post, curlStop, updateContext_self, List.count_append, List.count_singleton_self]
  rfl

theorem custody_pollRemoved_ne {h' : Nat} (c : HttpClient) (hh : h' ≠ h) (again : List Nat) :
    custody h (c.pollRemoved h' again) = custody h c := by
  have hbefore : custody h ((c.storeResult h').invokeCallback h' again) = custody h c :=
    (custody_invokeCallback _ h' again).trans (custody_storeResult c h')
  refine (custody_post _ ?_).trans ((custody_updateContext_ne _ _ hh).trans hbefore)
  simpa using hh

/-! ## What libcurl does -/

theorem Owned.of_custody (ho : Owned held h c) (hc : custody h d = custody h c)
    (hf : d.fault = none → c.fault = none) : Owned held h d := by
  intro hd
  rw [hc]
  exact ho (hf hd)

theorem crash_owned (c : HttpClient) (f : Fault) : Owned held h (c.crash f) := by
  intro hf
  cases hf

theorem sockCb_owned (ho : Owned held h c) (hf : c.fault = none) (h' s : Nat) (what : Poll)
    (again : List Nat) : Owned held h (c.sockCb h' s what again) := by
  obtain ⟨hsafe, htight⟩ := ho hf
  intro hd
  have hnote : ∀ live, custody h (c.note (.sock h' s what live)) = custody h c :=
    fun _ => custody_note c Obs.noConfusion
  cases hp : (c.contexts h').curlPrivate with
  | false =>
    rw [sockCb_of_null hp] at hd
    cases hd
  | true =>
    cases hs : c.lookup s with
    | none =>
      rw [sockCb_of_unknown hp hs, hnote]
      exact ⟨hsafe, htight⟩
    | some o =>
      rw [sockCb_of_known hp hs]
      have hassign : custody h ((c.note (.sock h' s what (c.contexts h').curlShared)).assign s
          (some o)) = custody h c := hnote _
      cases what with
      | pollRemove =>
        by_cases hh : h' = h
        · subst hh
          rw [polled, custody_pollRemoved, hassign]
          exact ⟨Custody.safe_giveUp, fun hr => (htight hr).giveUp hp⟩
        · rw [polled, custody_pollRemoved_ne _ hh, hassign]
          exact ⟨hsafe, htight⟩
      | pollIn =>
        rw [polled, custody_watch, hassign]
        exact ⟨hsafe, htight⟩
      | pollOut =>
        rw [polled, custody_watch, hassign]
        exact ⟨hsafe, htight⟩
      | pollInOut =>
        rw [polled, custody_watch, custody_watch, hassign]
        exact ⟨hsafe, htight⟩

theorem act_owned (ho : Owned held h c) (hf : c.fault = none) {a : CurlAct}
    (hd : c.act a = some d) : Owned held h d := by
  have hguard : ∀ {q : Prop} [Decidable q] {x : HttpClient},
      (if q then some x else none) = some d → x = d := by
    intro q _ x hg
    exact Option.some.inj (Option.ite_none_right_eq_some.mp hg).2
  cases a with
  | opensocket supported opened s =>
    obtain ⟨-, hd⟩ := Option.ite_none_left_eq_some.mp hd
    obtain rfl := Option.some.inj hd
    exact ho.of_custody (custody_opensocketCb c supported opened s) fun _ => hf
  | closesocket s =>
    obtain rfl := Option.some.inj hd
    exact ho.of_custody (custody_closesocketCb c s) fun _ => hf
  | sockCb h' s what again =>
    obtain rfl := hguard hd
    have hcb := sockCb_owned ho hf h' s what again
    split
    · exact hcb
    · exact hcb
  | multiTimer ms =>
    obtain rfl := Option.some.inj hd
    exact ho.of_custody (custody_multiTimerCb c ms) fun _ => hf
  | response h' code =>
    obtain rfl := hguard hd
    exact ho.of_custody (custody_note _ Obs.noConfusion) fun _ => hf
  | read h' n =>
    obtain rfl := hguard hd
    exact ho.of_custody (custody_updateContext c h' (fun _ => rfl) (fun _ => rfl)) fun _ => hf
  | header h' line =>
    obtain rfl := hguard hd
    refine ho.of_custody ((custody_note _ Obs.noConfusion).trans ?_) fun _ => hf
    exact custody_updateContext c h' (fun _ => rfl) (fun _ => rfl)
  | write h' data =>
    obtain rfl := hguard hd
    refine ho.of_custody ((custody_note _ Obs.noConfusion).trans ?_) fun _ => hf
    exact custody_updateContext c h' (fun _ => rfl) (fun _ => rfl)
  | finish h' =>
    obtain rfl := hguard hd
    exact ho.of_custody (custody_note _ Obs.noConfusion) fun _ => hf

theorem acts_owned (ho : Owned held h c) {as : List CurlAct} (hd : c.acts as = some d) :
    Owned held h d := by
  induction as generalizing c with
  | nil =>
    obtain rfl := Option.some.inj hd
    exact ho
  | cons a as ih =>
    rw [acts] at hd
    split at hd
    · obtain rfl := Option.some.inj hd
      exact ho
    · rename_i hf
      obtain ⟨b, hb, hd⟩ := Option.bind_eq_some_iff.mp hd
      exact ih (act_owned ho (Option.not_isSome_iff_eq_none.mp hf) hb) hd

/-! ## Handlers -/

theorem socketCb_owned {w : Watch} {e : ErrorCode} {as : List CurlAct} (ho : Owned held h c)
    (hd : c.socketCb w e as = some d) : Owned held h d := by
  cases socketCalled_of_socketCb hd with
  | ignored hskip has => exact ho
  | dangling he hw has => exact crash_owned c _
  | stopped b he hb hstop => exact acts_owned ho hb
  | watched b he hb hgo =>
    have hf : b.fault = none := by
      cases hb' : b.fault with
      | none => rfl
      | some f => exact absurd (Or.inl (congrArg Option.isSome hb')) hgo
    exact (acts_owned ho hb).of_custody (custody_watch b _ _ _) fun _ => hf

/-- `_poll_remove` has been taken out of the queue, and takes the easy handle back. -/
theorem pollRemove_owned {as : List CurlAct} (ho : Owned 1 h c)
    (hd : c.pollRemove h as = some d) : Owned 0 h d := by
  intro hf
  unfold pollRemove at hd
  by_cases hadd : c.curl.added h = true
  · rw [if_pos hadd] at hd
    obtain ⟨b, hb, rfl⟩ := Option.map_eq_some_iff.mp hd
    have hbf : b.fault = none := by
      by_cases hbf : b.fault.isSome = true
      · rw [if_pos hbf] at hf
        exact hf
      · exact Option.not_isSome_iff_eq_none.mp hbf
    obtain ⟨hsafe, htight⟩ := acts_owned ho hb hbf
    rw [if_neg (by rw [hbf]; exact Bool.false_ne_true)]
    have hcustody : custody h (note { b with curl := b.curl.remove h } (.removed h)) =
        { custody h b with added := false } := by
      rw [custody_note _ Obs.noConfusion]
      unfold custody Curl.remove
      simp only [Function.update_self]
    rw [hcustody]
    refine ⟨⟨hsafe.pointer, fun hx => absurd hx Bool.false_ne_true⟩, fun hr => ?_⟩
    have hb' := htight hr
    have hone := hb'.once
    have hunshared : ¬ (custody h b).shared = true := fun hx => by
      have hzero := (hb'.shared.mp hx).2
      omega
    refine ⟨hb'.pointer, iff_of_false hunshared (fun hx => absurd hx.1 Bool.false_ne_true), ?_, ?_⟩
    · dsimp only
      omega
    · dsimp only
      omega
  · rw [if_neg hadd] at hd
    obtain ⟨rfl, -⟩ := noActs_eq_some hd
    obtain ⟨hsafe, htight⟩ := ho hf
    refine ⟨⟨hsafe.pointer, fun hx => absurd hx hadd⟩, fun hr => ?_⟩
    exact absurd ((htight hr).pending (Nat.succ_pos _)) hadd

theorem pollRemove_owned_ne {h' : Nat} {as : List CurlAct} (ho : Owned held h c) (hh : h' ≠ h)
    (hd : c.pollRemove h' as = some d) : Owned held h d := by
  cases pollRemoved_of_pollRemove hd with
  | unknown has => exact ho
  | crashed b hb hf => exact acts_owned ho hb
  | removed b hb hf =>
    refine (acts_owned ho hb).of_custody ((custody_note _ Obs.noConfusion).trans ?_) fun _ => hf
    exact custody_of_same rfl (Function.update_of_ne hh.symm _ _) rfl rfl

theorem custody_curlStart_ne {h' : Nat} (hh : h' ≠ h) (c : HttpClient) :
    custody h ((c.curlStart h').setPrivate h') = custody h c :=
  (custody_updateContext_ne _ _ hh).trans (custody_updateContext_ne c _ hh)

theorem perform_owned {h' : Nat} {accepted : Bool} {as : List CurlAct} (ho : Owned 0 h c)
    (hf : c.fault = none) (hd : c.perform h' accepted as = some d) : Owned 0 h d := by
  obtain ⟨hsafe, htight⟩ := ho hf
  simp only [perform] at hd
  split at hd
  · split at hd
    · rename_i hadd
      have hnew : c.curl.added h' = false := by
        have hand := (Bool.and_eq_true_iff.mp hadd).2
        exact Bool.not_eq_true' _ ▸ hand
      refine acts_owned (fun _ => ?_) hd
      rw [custody_note _ Obs.noConfusion]
      by_cases hh : h' = h
      · subst hh
        have hcustody : custody h' { (c.curlStart h').setPrivate h' with
            curl := ((c.curlStart h').setPrivate h').curl.add h' } =
              { custody h' c with shared := true, pointer := true, added := true } := by
          have hx := setPrivate_curlStart c h'
          unfold custody
          simp only [hx, Curl.add, Function.update_self]
          rfl
        rw [hcustody]
        refine ⟨⟨fun _ => rfl, fun _ => Or.inl rfl⟩, fun hr => ?_⟩
        have hc := htight hr
        have hnone : (custody h' c).removals + 0 = 0 := by
          by_contra hpos
          exact absurd (hc.pending (Nat.pos_of_ne_zero hpos)) (ne_true_of_eq_false hnew)
        exact ⟨rfl, iff_of_true rfl ⟨rfl, hnone⟩, hc.once, fun _ => rfl⟩
      · have hcustody : custody h { (c.curlStart h').setPrivate h' with
            curl := ((c.curlStart h').setPrivate h').curl.add h' } = custody h c := by
          rw [← custody_curlStart_ne hh c]
          exact custody_of_same rfl (Function.update_of_ne (Ne.symm hh) _ _) rfl rfl
        rw [hcustody]
        exact ⟨hsafe, htight⟩
    · obtain ⟨rfl, -⟩ := noActs_eq_some hd
      intro _
      by_cases hh : h' = h
      · subst hh
        have hx := setPrivate_curlStart c h'
        refine ⟨⟨fun _ => ?_, fun _ => Or.inl ?_⟩, fun hr => ?_⟩
        · exact congrArg CallContext.curlShared hx
        · exact congrArg CallContext.curlShared hx
        · exact absurd List.mem_concat_self (of_decide_eq_false hr)
      · rw [custody_note _ (by simpa using hh), custody_curlStart_ne hh]
        exact ⟨hsafe, htight⟩
  · obtain ⟨rfl, -⟩ := noActs_eq_some hd
    exact crash_owned _ _

theorem run_owned {w : Work} {accepted : Bool} {as : List CurlAct}
    (ho : Owned ([w].count (.pollRemove h)) h c) (hf : c.fault = none)
    (hd : c.run accepted as w = some d) : Owned 0 h d := by
  cases w with
  | perform h' => exact perform_owned ho hf hd
  | pollRemove h' =>
    by_cases hh : h' = h
    · subst hh
      rw [List.count_singleton_self] at ho
      exact pollRemove_owned ho hd
    · rw [List.count_singleton, if_neg (by simpa using hh)] at ho
      exact pollRemove_owned_ne ho hh hd
  | deleteSocket o =>
    obtain ⟨rfl, -⟩ := noActs_eq_some hd
    exact ho.of_custody rfl fun _ => hf
  | socketCb w e =>
    have hnote : Owned 0 h (c.noteReadable w e) :=
      Owned.of_custody ho (custody_noteReadable c w e) fun _ => hf
    exact socketCb_owned hnote hd

/-! ## Steps and runs -/

/-- A handler that is taken out of the queue holds what the queue held. -/
theorem dequeued_owned {i : Nat} {w : Work} (ho : Owned 0 h c) (hw : c.queue[i]? = some w) :
    Owned ([w].count (.pollRemove h)) h { c with queue := c.queue.eraseIdx i } := by
  intro hf
  obtain ⟨hi, rfl⟩ := List.getElem?_eq_some_iff.mp hw
  have hsplit : c.queue = c.queue.take i ++ c.queue[i] :: c.queue.drop (i + 1) := by
    rw [← List.drop_eq_getElem_cons hi, List.take_append_drop]
  have hcount : c.queue.count (.pollRemove h) =
      (c.queue.eraseIdx i).count (.pollRemove h) + [c.queue[i]].count (.pollRemove h) := by
    conv_lhs => rw [hsplit]
    rw [List.eraseIdx_eq_take_drop_succ, List.count_append, List.count_append, List.count_cons,
      List.count_singleton, Nat.add_assoc]
  obtain ⟨hsafe, htight⟩ := ho hf
  have hremovals : (custody h c).removals + 0 =
      (custody h { c with queue := c.queue.eraseIdx i }).removals +
        [c.queue[i]].count (.pollRemove h) := hcount
  refine ⟨⟨hsafe.pointer, fun hx => ?_⟩, fun hr => ?_⟩
  · rw [← hremovals]
    exact hsafe.added hx
  · have hc := htight hr
    exact ⟨hc.pointer, hremovals ▸ hc.shared, hremovals ▸ hc.once, hremovals ▸ hc.pending⟩

theorem step_owned {ev : Event} (ho : Owned 0 h c) (hd : c.step ev = some d) : Owned 0 h d := by
  obtain ⟨hf, hstep⟩ := stepped_of_step hd
  cases hstep with
  | performAsync h' => exact ho.of_custody (custody_performAsync c h') fun _ => hf
  | ready i w hw => exact ho.of_custody (custody_post _ Work.noConfusion) fun _ => hf
  | expire hp => exact ho.of_custody rfl fun _ => hf
  | timeout i as x timer d hx hcode hacts =>
    have hcb : Owned 0 h (timerCb { c with timer := timer } x.code) :=
      ho.of_custody (custody_timerCb _ _) fun _ => hf
    exact acts_owned hcb hacts
  | aborted i x timer hx hcode => exact ho.of_custody (custody_timerCb _ _) fun _ => hf
  | run i accepted as w d hx hrun => exact run_owned (dequeued_owned ho hx) hf hrun

theorem owned_new (method : Nat → Nat) (content : Nat → Bytes) (h : Nat) :
    Owned 0 h (new method content) := by
  intro _
  refine ⟨⟨fun hx => Bool.noConfusion hx, fun hx => Bool.noConfusion hx⟩, fun _ => ?_⟩
  exact ⟨rfl, iff_of_false Bool.false_ne_true fun hx => Bool.false_ne_true hx.1, Nat.zero_le _,
    fun hx => absurd hx (Nat.lt_irrefl 0)⟩

/-- Whenever libcurl has the easy handle of a request or the pointer to its context, something
keeps the context alive. The self-reference of a request that libcurl has never refused is there
exactly from `_perform` until `sock_cb` gives it up, for ever if that never happens. -/
theorem contexts_owned {method : Nat → Nat} {content : Nat → Bytes} {es : List Event}
    (hr : runs step (new method content) es = some c) (hf : c.fault = none) (h : Nat) :
    ((c.contexts h).curlPrivate = true → (c.contexts h).curlShared = true) ∧
      (c.curl.added h = true → (c.contexts h).curlShared = true ∨ .pollRemove h ∈ c.queue) ∧
        (.refused h ∉ c.log → ((c.contexts h).curlShared = true ↔
          c.curl.added h = true ∧ .pollRemove h ∉ c.queue)) := by
  have howned : Owned 0 h c := invariant (D := fun _ _ => True) (fun _ _ _ ho _ => step_owned ho)
    (owned_new method content h) (along_of_forall (fun _ _ => trivial) _ _) hr
  obtain ⟨hsafe, htight⟩ := howned hf
  refine ⟨hsafe.pointer, fun hadd => ?_, fun hrefused => ?_⟩
  · exact (hsafe.added hadd).imp_right List.count_pos_iff.mp
  · have hshared := (htight (decide_eq_false hrefused)).shared
    rw [Nat.add_zero] at hshared
    exact hshared.trans (and_congr_right fun _ => List.count_eq_zero)

/-- The callback of a request sends it again. -/
def sentAnew : List Event :=
  [.performAsync 0, .run 0 true [.opensocket true true 5, .sockCb 0 5 .pollIn []], .ready 0,
    .run 0 true [.response 0 200, .finish 0, .sockCb 0 5 .pollRemove [0]]]

theorem contexts_owned_sentAnew :
    ∃ c, runs step (new (fun _ => 1) (fun _ => [])) sentAnew = some c ∧
      ((c.contexts 0).curlPrivate = true → (c.contexts 0).curlShared = true) ∧
        (c.curl.added 0 = true → (c.contexts 0).curlShared = true ∨ .pollRemove 0 ∈ c.queue) ∧
          (.refused 0 ∉ c.log → ((c.contexts 0).curlShared = true ↔
            c.curl.added 0 = true ∧ .pollRemove 0 ∉ c.queue)) := by
  have hrun : ∃ c, runs step (new (fun _ => 1) (fun _ => [])) sentAnew = some c ∧
      c.fault = none := ⟨_, rfl, rfl⟩
  obtain ⟨c, hc, hf⟩ := hrun
  exact ⟨c, hc, contexts_owned hc hf 0⟩

end HttpClient

end CsiHttp.Client
