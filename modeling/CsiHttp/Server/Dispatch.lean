import CsiHttp.Lib.Monitor
import CsiHttp.Lib.Runs
import CsiHttp.Server.Frame
import CsiHttp.Server.Parse
import CsiHttp.Server.TableParser

/-!
# Which messages are dispatched

Every call of a handler should be for a message that was completed since the previous
call. A monitor over the log remembers whether there is such a message. The flag
`_request_complete` outlives the reply, so a read that brings nothing but blank bytes
between two messages finds it still set.
-/
namespace CsiHttp.Server

open Lib Lib.Text Lib.Runs

/-- Some message was completed after the last dispatch. -/
def Fresh (log : List Obs) : Prop :=
  ∃ a k b, log = a ++ .callback (.messageComplete k) :: b ∧ ∀ r, .dispatched r ∉ b

def Obs.isDispatched : Obs → Bool
  | .dispatched _ => true
  | _ => false

def Obs.isCompleted : Obs → Bool
  | .callback (.messageComplete _) => true
  | _ => false

/-- Each dispatch is for a message of its own: one that was completed after the dispatch
before it. -/
structure NoPhantom (log : List Obs) : Prop where
  fresh : ∀ a r b, log = a ++ .dispatched r :: b → Fresh a
  count : log.countP Obs.isDispatched ≤ log.countP Obs.isCompleted

/-- The state of the monitor: a message was completed since the last dispatch. -/
def completions : Monitor Obs Bool where
  next q o := if o.isCompleted then true else if o.isDispatched then false else q
  ok q o := o.isDispatched = true → q = true

theorem Obs.isCompleted_iff {o : Obs} :
    o.isCompleted = true ↔ ∃ k, o = .callback (.messageComplete k) := by
  constructor
  · intro h
    unfold isCompleted at h
    split at h
    · exact ⟨_, rfl⟩
    · cases h
  · rintro ⟨k, rfl⟩
    rfl

theorem Obs.isDispatched_iff {o : Obs} : o.isDispatched = true ↔ ∃ r, o = .dispatched r := by
  constructor
  · intro h
    unfold isDispatched at h
    split at h
    · exact ⟨_, rfl⟩
    · cases h
  · rintro ⟨r, rfl⟩
    rfl

/-- A last element in a list that is split at `x`: it is `x` or it comes after it. -/
theorem concat_eq_split_iff {α : Type} {l a b : List α} {x o : α} :
    l ++ [o] = a ++ x :: b ↔
      (b = [] ∧ l = a ∧ o = x) ∨ ∃ b', b = b' ++ [o] ∧ l = a ++ x :: b' := by
  constructor
  · intro h
    rcases List.eq_nil_or_concat' b with rfl | ⟨b', o', rfl⟩
    · obtain ⟨hl, ho⟩ := List.append_inj' h rfl
      exact Or.inl ⟨rfl, hl, List.singleton_inj.mp ho⟩
    · rw [← List.cons_append, ← List.append_assoc] at h
      obtain ⟨hl, ho⟩ := List.append_inj' h rfl
      exact Or.inr ⟨b', by rw [List.singleton_inj.mp ho], hl⟩
  · rintro (⟨rfl, rfl, rfl⟩ | ⟨b', rfl, rfl⟩)
    · rfl
    · simp

theorem fresh_concat_iff {log : List Obs} {o : Obs} :
    Fresh (log ++ [o]) ↔ o.isCompleted = true ∨ (o.isDispatched = false ∧ Fresh log) := by
  constructor
  · rintro ⟨a, k, b, h, hb⟩
    rcases concat_eq_split_iff.mp h with ⟨-, -, rfl⟩ | ⟨b', rfl, hl⟩
    · exact Or.inl rfl
    · refine Or.inr ⟨?_, a, k, b', hl, fun r hr => hb r (List.mem_append_left _ hr)⟩
      rw [← Bool.not_eq_true, Obs.isDispatched_iff]
      rintro ⟨r, rfl⟩
      exact hb r (List.mem_append_right _ List.mem_cons_self)
  · rintro (hc | ⟨hd, a, k, b, rfl, hb⟩)
    · obtain ⟨k, rfl⟩ := Obs.isCompleted_iff.mp hc
      exact ⟨log, k, [], rfl, fun _ => List.not_mem_nil⟩
    · refine ⟨a, k, b ++ [o], by simp, fun r hr => ?_⟩
      rcases List.mem_append.mp hr with hr | hr
      · exact hb r hr
      · obtain rfl := List.mem_singleton.mp hr
        cases hd

theorem completions_after_iff (log : List Obs) : completions.after false log = true ↔ Fresh log := by
  induction log using List.reverseRecOn with
  | nil =>
    refine iff_of_false Bool.noConfusion ?_
    rintro ⟨a, k, b, h, -⟩
    exact List.append_ne_nil_of_right_ne_nil a (List.cons_ne_nil _ b) h.symm
  | append_singleton log o ih =>
    rw [Monitor.after_append, Monitor.after_cons, Monitor.after_nil, fresh_concat_iff, ← ih]
    simp only [completions]
    split
    · simp [*]
    · split <;> simp [*]

/-- An accepted log completes at least as many messages as it dispatches. -/
theorem count_of_accepts {log : List Obs} {q : Bool} (h : completions.Accepts q log) :
    log.countP Obs.isDispatched + (if completions.after q log then 1 else 0) ≤
      log.countP Obs.isCompleted + if q then 1 else 0 := by
  induction log generalizing q with
  | nil => exact Nat.le_refl _
  | cons o log ih =>
    obtain ⟨ho, hlog⟩ := h
    have hrest := ih hlog
    rw [Monitor.after_cons, List.countP_cons, List.countP_cons]
    simp only [completions] at ho hrest ⊢
    by_cases hc : o.isCompleted
    · have hd : ¬ o.isDispatched := by
        obtain ⟨k, rfl⟩ := Obs.isCompleted_iff.mp hc
        exact Bool.noConfusion
      simp only [hc, hd, if_true, if_false, Bool.false_eq_true] at hrest ⊢
      omega
    · by_cases hd : o.isDispatched
      · have hq := ho hd
        simp only [hc, hd, hq, if_true, if_false, Bool.false_eq_true] at hrest ⊢
        omega
      · simp only [hc, hd, if_false, Bool.false_eq_true] at hrest ⊢
        omega

theorem noPhantom_iff {log : List Obs} : NoPhantom log ↔ completions.Accepts false log := by
  constructor
  · intro h
    rw [Monitor.accepts_iff_at]
    intro a o b hl hd
    obtain ⟨r, rfl⟩ := Obs.isDispatched_iff.mp hd
    exact (completions_after_iff a).mpr (h.fresh a r b hl)
  · intro h
    refine ⟨fun a r b hl => ?_, ?_⟩
    · subst hl
      exact (completions_after_iff a).mp (h.at rfl)
    · have hcount := count_of_accepts h
      simp only [Bool.false_eq_true, if_false] at hcount
      omega

/-! ## Logs of single steps -/

theorem Obs.Quiet.not_completed {o : Obs} (h : o.Quiet) : o.isCompleted = false := by
  cases o <;> first | rfl | exact h.elim

theorem Obs.Quiet.not_dispatched {o : Obs} (h : o.Quiet) : o.isDispatched = false := by
  cases o <;> first | rfl | exact h.elim

theorem completions_still {o : Obs} (hc : o.isCompleted = false) (hd : o.isDispatched = false)
    (q : Bool) : completions.next q o = q ∧ completions.ok q o := by
  simp [completions, hc, hd]

theorem completions_quiet {l : List Obs} (h : ∀ o ∈ l, o.Quiet) (q : Bool) :
    completions.after q l = q ∧ completions.Accepts q l :=
  ⟨Monitor.after_of_still fun o ho =>
      (completions_still (h o ho).not_completed (h o ho).not_dispatched q).1,
    Monitor.accepts_of_still fun o ho =>
      completions_still (h o ho).not_completed (h o ho).not_dispatched q⟩

/-- Callbacks dispatch nothing; a completion among them makes the monitor hopeful. -/
theorem completions_callbacks (cbs : List Callback) (q : Bool) :
    completions.Accepts q (cbs.map .callback) ∧
      (q = true ∨ (∃ k, .messageComplete k ∈ cbs) →
        completions.after q (cbs.map .callback) = true) := by
  induction cbs generalizing q with
  | nil =>
    refine ⟨trivial, fun h => h.resolve_right ?_⟩
    rintro ⟨k, hk⟩
    cases hk
  | cons cb cbs ih =>
    rw [List.map_cons, Monitor.accepts_cons, Monitor.after_cons]
    refine ⟨⟨fun h => Bool.noConfusion h, (ih _).1⟩, fun h => (ih _).2 ?_⟩
    by_cases hc : (Obs.callback cb).isCompleted
    · left
      simp [completions, hc]
    · have hnext : completions.next q (.callback cb) = q :=
        (completions_still (Bool.not_eq_true _ ▸ hc) rfl q).1
      rw [hnext]
      refine h.imp_right ?_
      rintro ⟨k, hk⟩
      rcases List.mem_cons.mp hk with rfl | hk
      · exact absurd rfl hc
      · exact ⟨k, hk⟩

section Tracked

variable {E : Externals} {phase : E.parser.State → Phase}
variable {s t : Session E.parser.State} {ev : Event}

/-- The monitor is content, and the flag tells whether a message stands complete. -/
structure Tracked (phase : E.parser.State → Phase) (s : Session E.parser.State) : Prop where
  accepts : completions.Accepts false s.log
  busy : s.fault = none → ∀ st, s.conn.parser = some st → phase st ≠ .idle →
    s.conn.requestComplete = false
  idle : s.fault = none → ∀ st, s.conn.parser = some st → phase st = .idle →
    (s.conn.requestComplete = true ↔ ∃ k, .callback (.messageComplete k) ∈ s.log)

/-- Blank bytes between two messages do not arrive once everything that was completed
has been dispatched. -/
def NotStale (phase : E.parser.State → Phase) (s : Session E.parser.State) (ev : Event) : Prop :=
  ∀ bytes ops st, ev = .read .success bytes ops → s.conn.parser = some st → phase st = .idle →
    (∀ b ∈ bytes, blank b = true) → (∃ r, .dispatched r ∈ s.log) → Fresh s.log

theorem Tracked.of_quiet (h : Tracked phase s) (hf : s.fault = none) (hq : Session.Quiet s t) :
    Tracked phase t := by
  obtain ⟨l, hl, hquiet⟩ := hq.log
  refine ⟨?_, fun _ => ?_, fun _ => ?_⟩
  · rw [hl, Monitor.accepts_append]
    exact ⟨h.accepts, (completions_quiet hquiet _).2⟩
  · rw [hq.parser, hq.complete]
    exact h.busy hf
  · rw [hq.parser, hq.complete]
    intro st hst hidle
    rw [h.idle hf st hst hidle, hl]
    constructor
    · rintro ⟨k, hk⟩
      exact ⟨k, List.mem_append_left _ hk⟩
    · rintro ⟨k, hk⟩
      exact ⟨k, (List.mem_append.mp hk).resolve_right fun hk' => hquiet _ hk'⟩

/-- The log after `http_parse` is accepted, and hopeful if a message was completed. -/
theorem Tracked.parse_log (h : Tracked phase s) (bytes : Bytes) :
    completions.Accepts false (s.parse E bytes).log ∧
      (Fresh s.log ∨ (∃ k, .messageComplete k ∈ (s.conn.httpParse E.parser bytes).made) →
        Fresh (s.parse E bytes).log) := by
  have hcb := completions_callbacks (s.conn.httpParse E.parser bytes).made
    (completions.after false s.log)
  change completions.Accepts false (s.log ++ _) ∧ (_ → Fresh (s.log ++ _))
  rw [← completions_after_iff, ← completions_after_iff, Monitor.after_append,
    Monitor.accepts_append]
  exact ⟨⟨h.accepts, hcb.1⟩, hcb.2⟩

theorem Tracked.parsed (hP : E.parser.Documented phase) (h : Tracked phase s)
    (hf : s.fault = none) {bytes : Bytes} {n : Nat}
    (hres : (s.conn.httpParse E.parser bytes).result = .ok n) :
    Tracked phase ((s.parse E bytes).note (.parsed bytes.length n)) := by
  have hlog := (h.parse_log bytes).1
  have hacc : completions.Accepts false ((s.parse E bytes).log ++ [.parsed bytes.length n]) :=
    Monitor.accepts_append.mpr ⟨hlog, (completions_still rfl rfl _).2, trivial⟩
  have halive : ∀ st', (s.parse E bytes).conn.parser = some st' → ∃ st,
      s.conn.parser = some st ∧ (phase st ≠ .idle → s.conn.requestComplete = false) := by
    intro st' hst'
    cases hst : s.conn.parser with
    | none =>
      change (s.conn.httpParse E.parser bytes).conn.parser = _ at hst'
      rw [Connection.httpParse_dead hst, hst] at hst'
      cases hst'
    | some st => exact ⟨st, rfl, h.busy hf st hst⟩
  refine ⟨hacc, fun _ st' hst' => ?_, fun _ st' hst' hidle => ?_⟩
  · obtain ⟨st, hst, hbusy⟩ := halive st' hst'
    exact (Connection.httpParse_alive hP hst hbusy hres hst').1
  · obtain ⟨st, hst, hbusy⟩ := halive st' hst'
    change (s.conn.httpParse E.parser bytes).conn.requestComplete = true ↔
      ∃ k, Obs.callback (.messageComplete k) ∈
        s.log ++ (s.conn.httpParse E.parser bytes).made.map .callback ++ [.parsed bytes.length n]
    rcases (Connection.httpParse_alive hP hst hbusy hres hst').2 hidle with
      ⟨-, hph, hmade, hflag⟩ | ⟨hflag, k, hk⟩
    · rw [hflag, hmade, h.idle hf st hst hph]
      simp
    · refine iff_of_true hflag ⟨k, ?_⟩
      exact List.mem_append_left _ (List.mem_append_right _ (List.mem_map_of_mem hk))

theorem Tracked.of_dispatches {r : Request} (h : Tracked phase s) (hf : s.fault = none)
    (hd : Session.Dispatches s t r) (hfresh : Fresh s.log) : Tracked phase t := by
  obtain ⟨l, l', hl, hq, hq'⟩ := hd.log
  have hmem : ∀ k, .callback (.messageComplete k) ∈ t.log ↔
      .callback (.messageComplete k) ∈ s.log := by
    intro k
    rw [hl, List.append_assoc, List.mem_append]
    refine or_iff_left ?_
    intro hk
    rcases List.mem_append.mp hk with hk | hk
    · exact hq _ hk
    · rcases List.mem_cons.mp hk with hk | hk
      · cases hk
      · exact hq' _ hk
  refine ⟨?_, fun _ => ?_, fun _ => ?_⟩
  · rw [hl, Monitor.accepts_append, Monitor.accepts_append, Monitor.accepts_cons,
      Monitor.after_append, (completions_quiet hq _).1]
    exact ⟨⟨h.accepts, (completions_quiet hq _).2⟩,
      fun _ => (completions_after_iff _).mpr hfresh, (completions_quiet hq' _).2⟩
  · rw [hd.parser, hd.complete]
    exact h.busy hf
  · rw [hd.parser, hd.complete]
    simp only [hmem]
    exact h.idle hf

/-- The message that a read dispatches has just been completed, unless the read was stale. -/
theorem Tracked.fresh (hP : E.parser.Documented phase) (h : Tracked phase s) (hf : s.fault = none)
    {bytes : Bytes} (hne : bytes ≠ [])
    (hc : ∀ st, s.conn.parser = some st → phase st = .idle → (∀ b ∈ bytes, blank b = true) →
      (∃ r, .dispatched r ∈ s.log) → Fresh s.log)
    (hres : (s.conn.httpParse E.parser bytes).result = .ok bytes.length)
    (hflag : (s.conn.httpParse E.parser bytes).conn.requestComplete = true) :
    Fresh (s.parse E bytes).log := by
  cases hst : s.conn.parser with
  | none =>
    rw [Connection.httpParse_dead hst] at hres
    exact absurd (List.eq_nil_of_length_eq_zero (Except.ok.inj hres).symm) hne
  | some st =>
    have hbusy := h.busy hf st hst
    cases hst' : (s.conn.httpParse E.parser bytes).conn.parser with
    | none =>
      rw [Connection.httpParse_died hP hst hbusy hres hst'] at hflag
      cases hflag
    | some st' =>
      obtain ⟨hmid, hidle⟩ := Connection.httpParse_alive hP hst hbusy hres hst'
      by_cases hph : phase st' = .idle
      · apply (h.parse_log bytes).2
        rcases hidle hph with ⟨hcalls, hph, hmade, hsame⟩ | ⟨-, hk⟩
        · left
          -- no callback at all: the flag is the one of an earlier message
          obtain ⟨k, hk⟩ := (h.idle hf st hst hph).mp (hsame ▸ hflag)
          have hblank : ∀ b ∈ bytes, blank b = true := by
            intro b hb
            by_contra hnb
            rcases hP.starts st bytes hph ⟨b, hb, Bool.not_eq_true _ ▸ hnb⟩ with hcalls' | hdead
            · exact hcalls' hcalls
            · have hfin := Connection.httpParse_finished hst bytes (by rw [hcalls]; rfl)
              rw [hfin] at hst'
              cases hdead.symm.trans hst'
          by_cases hd : ∃ r, .dispatched r ∈ s.log
          · exact hc st hst hph hblank hd
          · obtain ⟨a, b, hsplit⟩ := List.append_of_mem hk
            refine ⟨a, k, b, hsplit, fun r hr => hd ⟨r, ?_⟩⟩
            rw [hsplit]
            exact List.mem_append_right _ (List.mem_cons_of_mem _ hr)
        · exact Or.inr hk
      · rw [hmid hph] at hflag
        cases hflag

/-- A stale read dispatches once more. -/
theorem Tracked.stale (hP : E.parser.Documented phase) (h : Tracked phase s) (hf : s.fault = none)
    {bytes : Bytes} {st : E.parser.State} (hst : s.conn.parser = some st) (hph : phase st = .idle)
    (hblank : ∀ b ∈ bytes, blank b = true) (hd : ∃ r, .dispatched r ∈ s.log) :
    (s.conn.httpParse E.parser bytes).result = .ok bytes.length ∧
      (s.conn.httpParse E.parser bytes).conn.requestComplete = true ∧
      (s.conn.httpParse E.parser bytes).made = [] := by
  obtain ⟨hcalls, -, hlen⟩ := hP.skips st bytes hph hblank
  have hfin := Connection.httpParse_finished hst bytes (by rw [hcalls]; rfl)
  rw [hfin, hcalls]
  refine ⟨congrArg Except.ok hlen, ?_, rfl⟩
  obtain ⟨r, hr⟩ := hd
  obtain ⟨a, b, hsplit⟩ := List.append_of_mem hr
  obtain ⟨a1, k, a2, hfresh, -⟩ := (noPhantom_iff.mpr h.accepts).fresh a r b hsplit
  apply (h.idle hf st hst hph).mpr
  rw [hsplit, hfresh]
  exact ⟨k, List.mem_append_left _ (List.mem_append_right _ List.mem_cons_self)⟩

theorem tracked_step {T : Transport E.parser.State} (hT : T.Lawful)
    (hP : E.parser.Documented phase) (h : Tracked phase s) (hc : NotStale phase s ev)
    (hs : s.step E T ev = some t) : Tracked phase t := by
  obtain ⟨hf, hout⟩ := step_outcome hT hs
  cases hout with
  | calm _ ht => exact h.of_quiet hf ht.quiet
  | quiet _ ht _ => exact h.of_quiet hf ht
  | read bytes ops s' hev hb hs' ht =>
    have h' := h.of_quiet hf hs'.quiet
    have hf' := hs'.fault.trans hf
    cases ht with
    | crashed f hres ht =>
      subst ht
      refine ⟨(h'.parse_log bytes).1, fun hn => ?_, fun hn => ?_⟩
      · cases hn
      · cases hn
    | rejected n hres hn ht _ => exact (h'.parsed hP hf' hres).of_quiet hf' ht
    | more hres _ ht => exact (h'.parsed hP hf' hres).of_quiet hf' ht.quiet
    | dispatched r hres hflag _ ht =>
      have hne : bytes ≠ [] := by
        rintro rfl
        cases hb
      refine (h'.parsed hP hf' hres).of_dispatches hf' ht ?_
      have hcalm : ∀ o ∈ s'.log, o ∈ s.log ∨ o.Quiet := by
        obtain ⟨l, hl, hq⟩ := hs'.quiet.log
        intro o ho
        rw [hl] at ho
        exact (List.mem_append.mp ho).imp_right (hq o)
      have hfresh := h'.fresh hP hf' hne (fun st hst hph hblank hd => ?_) hres hflag
      · exact fresh_concat_iff.mpr (Or.inr ⟨rfl, hfresh⟩)
      · obtain ⟨r, hr⟩ := hd
        rw [hs'.conn] at hst
        have hold := hc bytes ops st hev hst hph hblank ⟨r, (hcalm _ hr).resolve_right id⟩
        obtain ⟨l, hl, hq⟩ := hs'.quiet.log
        rw [← completions_after_iff, hl, Monitor.after_append, (completions_quiet hq _).1]
        exact (completions_after_iff _).mpr hold

theorem stale_breaks {T : Transport E.parser.State} (hT : T.Lawful)
    (hP : E.parser.Documented phase) (h : Tracked phase s) (hc : ¬ NotStale phase s ev)
    (hs : s.step E T ev = some t) : ¬ NoPhantom t.log := by
  unfold NotStale at hc
  push Not at hc
  obtain ⟨bytes, ops, st, rfl, hst, hph, hblank, hd, hstale⟩ := hc
  obtain ⟨hf, hout⟩ := step_outcome hT hs
  cases hout with
  | calm hev _ => exact absurd rfl (hev bytes ops)
  | quiet hev _ _ => exact absurd rfl (hev bytes ops)
  | read bytes' ops' s' hev hb hs' ht =>
    obtain ⟨-, rfl, rfl⟩ := Event.read.inj hev
    have h' := h.of_quiet hf hs'.quiet
    obtain ⟨l, hl, hq⟩ := hs'.quiet.log
    have hd' : ∃ r, .dispatched r ∈ s'.log := by
      obtain ⟨r, hr⟩ := hd
      exact ⟨r, hl ▸ List.mem_append_left _ hr⟩
    obtain ⟨hres, hflag, hmade⟩ := h'.stale hP (hs'.fault.trans hf) (hs'.conn ▸ hst) hph hblank hd'
    cases ht with
    | crashed f hres' _ => cases hres.symm.trans hres'
    | rejected n hres' hn _ _ => exact absurd (Except.ok.inj (hres'.symm.trans hres)) hn
    | more _ hflag' _ => cases hflag.symm.trans hflag'
    | dispatched r _ _ _ ht =>
      obtain ⟨l1, l2, hlog, hq1, -⟩ := ht.log
      intro hp
      have hfresh := hp.fresh _ r l2 hlog
      rw [← completions_after_iff, Monitor.after_append, (completions_quiet hq1 _).1] at hfresh
      have hsame : ((s'.parse E bytes).note (.parsed bytes.length bytes.length)).log =
          s.log ++ l ++ [.parsed bytes.length bytes.length] := by
        change s'.log ++ (s'.conn.httpParse E.parser bytes).made.map .callback ++ _ = _
        rw [hmade, hl, List.map_nil, List.append_nil]
      rw [hsame, completions_after_iff, fresh_concat_iff, ← completions_after_iff,
        Monitor.after_append, (completions_quiet hq _).1, completions_after_iff] at hfresh
      rcases hfresh with hfresh | ⟨-, hfresh⟩
      · cases hfresh
      · exact hstale hfresh

/-- No dispatch is lost from a log by going on. -/
theorem noPhantom_of_step {T : Transport E.parser.State} (hT : T.Lawful)
    (hs : s.step E T ev = some t) (h : NoPhantom t.log) : NoPhantom s.log := by
  obtain ⟨l, hl⟩ := step_log hT hs
  rw [noPhantom_iff] at h ⊢
  rw [← hl] at h
  exact (Monitor.accepts_append.mp h).1

theorem noPhantom_iff_along {T : Transport E.parser.State} (hT : T.Lawful)
    (hP : E.parser.Documented phase) (h : Tracked phase s) {es : List Event}
    (hr : runs (Session.step E T) s es = some t) :
    NoPhantom t.log ↔ Along (Session.step E T) (NotStale phase) s es := by
  rw [← throughout_iff_last (fun s e t => noPhantom_of_step hT) hr]
  exact throughout_iff_along (fun s hs => noPhantom_iff.mpr hs.accepts)
    (fun s e t hs _ hc ht => tracked_step hT hP hs hc ht)
    (fun s e t hs _ hc ht => stale_breaks hT hP hs hc ht) h (along_of_forall (fun _ _ => trivial) s es)
    hr

end Tracked

theorem tracked_new {E : Externals} {phase : E.parser.State → Phase} {s : Session E.parser.State}
    (hlog : ∀ o ∈ s.log, o = .readStarted) (hflag : s.conn.requestComplete = false) :
    Tracked phase s := by
  refine ⟨(completions_quiet (fun o ho => ?_) _).2, fun _ _ _ _ => hflag, fun _ st _ _ => ?_⟩
  · rw [hlog o ho]
    trivial
  · rw [hflag]
    refine iff_of_false Bool.noConfusion ?_
    rintro ⟨k, hk⟩
    cases hlog _ hk

/-- On either transport every dispatch has a message of its own exactly when no read of
blank bytes comes in between two messages after the last of them has been dispatched. -/
theorem no_phantom_iff {E : Externals} {phase : E.parser.State → Phase}
    (hP : E.parser.Documented phase) (tag : Bytes) (junk : Uninitialised) (es : List Event) :
    (∀ u, runs (HttpConnection.step E) (HttpConnection.start E tag junk) es = some u →
      (NoPhantom u.log ↔
        Along (HttpConnection.step E) (NotStale phase) (HttpConnection.start E tag junk) es)) ∧
    (∀ u, runs (HttpsConnection.step E) (HttpsConnection.start E tag junk) es = some u →
      (NoPhantom u.log ↔
        Along (HttpsConnection.step E) (NotStale phase) (HttpsConnection.start E tag junk) es)) := by
  constructor
  · intro u hu
    refine noPhantom_iff_along (HttpConnection.lawful E) hP (tracked_new ?_ rfl) hu
    exact List.forall_mem_singleton.mpr rfl
  · intro u hu
    exact noPhantom_iff_along (HttpsConnection.lawful E) hP (tracked_new (List.forall_mem_nil _) rfl)
      hu

/-- A request is answered, and then the client sends an empty line. -/
def emptyLineAfterReply : List Event :=
  [.read .success (getBytes (ascii "/")) [.create .ok Reply.textHtml 0], .write 0 .success,
    .read .success [13, 10] [.create .ok Reply.textHtml 0]]

theorem no_phantom_iff_emptyLine :
    (∀ u, runs (HttpConnection.step getServer) (HttpConnection.start getServer [] .zero)
        emptyLineAfterReply = some u →
      (NoPhantom u.log ↔ Along (HttpConnection.step getServer) (NotStale (fun _ => .idle))
        (HttpConnection.start getServer [] .zero) emptyLineAfterReply)) ∧
    (∀ u, runs (HttpsConnection.step getServer) (HttpsConnection.start getServer [] .zero)
        emptyLineAfterReply = some u →
      (NoPhantom u.log ↔ Along (HttpsConnection.step getServer) (NotStale (fun _ => .idle))
        (HttpsConnection.start getServer [] .zero) emptyLineAfterReply)) :=
  no_phantom_iff (tableParser_documented _) [] .zero emptyLineAfterReply

theorem emptyLine_phantom :
    ∃ u, runs (HttpConnection.step getServer) (HttpConnection.start getServer [] .zero)
      emptyLineAfterReply = some u ∧ ¬ NoPhantom u.log := by
  have hrun : ∃ u, runs (HttpConnection.step getServer) (HttpConnection.start getServer [] .zero)
      emptyLineAfterReply = some u ∧
        (u.log.countP Obs.isDispatched, u.log.countP Obs.isCompleted) = (2, 1) := ⟨_, rfl, rfl⟩
  obtain ⟨u, hu, hcount⟩ := hrun
  refine ⟨u, hu, fun hp => ?_⟩
  obtain ⟨hd, hc⟩ := Prod.mk.inj hcount
  have hle := hp.count
  rw [hd, hc] at hle
  exact absurd hle (by decide)

end CsiHttp.Server
