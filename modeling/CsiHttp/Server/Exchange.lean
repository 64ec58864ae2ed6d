import CsiHttp.Lib.Monitor
import CsiHttp.Server.Frame
import CsiHttp.Server.Parse

/-!
# One request, one reply

Where the request under way stands can be read off the log. The monitor `exchanges` says
which observation may follow which: a reply follows a dispatch, not before a handler that
deferred it has notified, and no read is started while a reply is owed.

`Stage` ties the state of the monitor to the pending operations of a connection. Its
numbers are what a transport counts: operations that end in a read, and queued calls of
`send_reply`.
-/
namespace CsiHttp.Server

open Lib Lib.Text

/-- `r` may have become `sent` in `send_reply`, and `buffers` is what goes out then. -/
def Reply.SentAs (r sent : Reply) (buffers : List Bytes) : Prop :=
  r.toBuffers = .ok (sent, buffers) ∨ (r.add Session.connectionClose).toBuffers = .ok (sent, buffers)

inductive Exchange where
  | idle
  | dispatched
  /-- The handler has deferred its reply. -/
  | waiting
  /-- The deferred reply is done. -/
  | notified (reply : Reply)
  /-- `send_reply` is running. -/
  | sending (reply : Reply)
  | replied
  deriving DecidableEq

def exchanges : Monitor Obs Exchange where
  next
    | _, .dispatched _ => .dispatched
    | _, .deferred => .waiting
    | _, .notified r => .notified r
    | _, .replying r => .sending r
    | _, .replied _ _ => .replied
    | _, .readStarted => .idle
    | q, _ => q
  ok
    | q, .dispatched _ => q = .idle
    | q, .deferred => q = .dispatched
    | q, .notified _ => q = .waiting
    | q, .replying r => q = .idle ∨ q = .dispatched ∨ q = .notified r
    | q, .replied sent buffers => ∃ r, q = .sending r ∧ r.SentAs sent buffers
    | q, .readStarted => q = .idle ∨ q = .replied
    | _, _ => True

def Session.exchange {State : Type} (s : Session State) : Exchange := exchanges.after .idle s.log

/-- A handler owes the reply that it deferred, or has delivered it and it is not sent yet. -/
def Exchange.isDeferred : Exchange → Bool
  | .waiting => true
  | .notified _ => true
  | _ => false

def Obs.isReplying : Obs → Bool
  | .replying _ => true
  | _ => false

/-- What a run must look like: its log, and the state it has reached. `onItsWay` says that
a call of `send_reply` is queued. -/
structure Orderly {State : Type} (s : Session State) (onItsWay : Prop) : Prop where
  /-- Exactly one reply between a dispatch and the next read. -/
  once : ∀ a r b c, s.log = a ++ .dispatched r :: b ++ .readStarted :: c → .readStarted ∉ b →
    b.countP Obs.isReplying = 1
  /-- And at most one as long as no read has followed. -/
  atMostOnce : ∀ a r b, s.log = a ++ .dispatched r :: b → .readStarted ∉ b →
    b.countP Obs.isReplying ≤ 1
  /-- No reply is forgotten: it is sent, deferred or on its way. -/
  owed : s.fault = none → s.exchange ≠ .dispatched ∧ ∀ r, s.exchange = .notified r → onItsWay
  /-- No reply before the handler that deferred it has notified. -/
  patient : ∀ a b r c, s.log = a ++ .deferred :: b ++ .replying r :: c → ∃ r', .notified r' ∈ b
  /-- The reply is sent as the handler left it, -/
  asLeft : ∀ a r b r' c, s.log = a ++ .notified r :: b ++ .replying r' :: c →
    (∀ o ∈ b, o.isReplying = false) → r' = r
  /-- its buffers are made from it, -/
  written : ∀ a r b sent buffers c, s.log = a ++ .replying r :: b ++ .replied sent buffers :: c →
    (∀ sent' buffers', .replied sent' buffers' ∉ b) → r.SentAs sent buffers
  /-- and it does not change before the write has completed. -/
  stable : ∀ w ∈ s.writes, w.reply = s.conn.reply

/-! ## What an accepted log looks like -/

def Exchange.answered : Exchange → Nat
  | .sending _ => 1
  | .replied => 1
  | _ => 0

/-- One accepted observation other than a started read. -/
theorem answered_next {q : Exchange} {o : Obs} (hok : exchanges.ok q o) (hq : q ≠ .idle)
    (ho : o ≠ .readStarted) :
    exchanges.next q o ≠ .idle ∧
      (if o.isReplying then 1 else 0) + q.answered = (exchanges.next q o).answered := by
  cases o with
  | dispatched r => exact absurd hok hq
  | deferred =>
    obtain rfl : q = .dispatched := hok
    exact ⟨Exchange.noConfusion, rfl⟩
  | notified r =>
    obtain rfl : q = .waiting := hok
    exact ⟨Exchange.noConfusion, rfl⟩
  | replying r =>
    have hok : q = .idle ∨ q = .dispatched ∨ q = .notified r := hok
    refine ⟨Exchange.noConfusion, ?_⟩
    rcases hok with rfl | rfl | rfl
    · exact absurd rfl hq
    · rfl
    · rfl
  | replied sent buffers =>
    obtain ⟨r, rfl, -⟩ : ∃ r, q = .sending r ∧ r.SentAs sent buffers := hok
    exact ⟨Exchange.noConfusion, rfl⟩
  | readStarted => exact absurd rfl ho
  | callback _ | parsed _ _ | requestIdLogged _ | methodLogged _ | timedOut _ =>
    exact ⟨hq, Nat.zero_add _⟩

/-- Until the next read is started, the replies are counted by the state. -/
theorem count_replying {q : Exchange} {b : List Obs} (h : exchanges.Accepts q b) (hq : q ≠ .idle)
    (hb : .readStarted ∉ b) :
    exchanges.after q b ≠ .idle ∧
      b.countP Obs.isReplying + q.answered = (exchanges.after q b).answered := by
  induction b generalizing q with
  | nil => exact ⟨hq, Nat.zero_add _⟩
  | cons o b ih =>
    have ho : o ≠ .readStarted := fun he => hb (he ▸ List.mem_cons_self)
    obtain ⟨hne, hcount⟩ := answered_next h.1 hq ho
    obtain ⟨hne', hcount'⟩ := ih h.2 hne (fun hm => hb (List.mem_cons_of_mem _ hm))
    rw [Monitor.after_cons, List.countP_cons]
    exact ⟨hne', by omega⟩

/-- How accepted observations leave the states of a deferred reply. -/
theorem exit_of_ok {q : Exchange} {o : Obs} (hok : exchanges.ok q o) (hi : q ≠ .idle)
    (hd : q ≠ .dispatched) (hr : q ≠ .replied) :
    exchanges.next q o = q ∨ (q = .waiting ∧ ∃ r, o = .notified r) ∨
      (∃ r, q = .notified r ∧ o = .replying r) ∨
      ∃ r sent buffers, q = .sending r ∧ o = .replied sent buffers := by
  cases o with
  | dispatched r => exact absurd hok hi
  | deferred => exact absurd hok hd
  | notified r => exact Or.inr (Or.inl ⟨hok, r, rfl⟩)
  | replying r =>
    rcases hok with hok | hok | hok
    · exact absurd hok hi
    · exact absurd hok hd
    · exact Or.inr (Or.inr (Or.inl ⟨r, hok, rfl⟩))
  | replied sent buffers =>
    obtain ⟨r, hq, -⟩ := hok
    exact Or.inr (Or.inr (Or.inr ⟨r, sent, buffers, hq, rfl⟩))
  | readStarted =>
    rcases hok with hok | hok
    · exact absurd hok hi
    · exact absurd hok hr
  | callback _ | parsed _ _ | requestIdLogged _ | methodLogged _ | timedOut _ => exact Or.inl rfl

theorem waiting_until_notified {b : List Obs} (h : exchanges.Accepts .waiting b)
    (hb : ∀ r, .notified r ∉ b) : exchanges.after .waiting b = .waiting := by
  refine Monitor.after_of_exit (fun o => ∃ r, o = .notified r) (fun o hok hexit => ?_) h ?_
  · rcases exit_of_ok hok Exchange.noConfusion Exchange.noConfusion Exchange.noConfusion with
      hn | ⟨-, ho⟩ | ⟨r, hr, -⟩ | ⟨r, sent, buffers, hr, -⟩
    · exact hn
    · exact absurd ho hexit
    · cases hr
    · cases hr
  · rintro o ho ⟨r, rfl⟩
    exact hb r ho

/-- A reply that is awaited has been deferred, and its handler has not notified since. -/
theorem deferred_of_waiting {log : List Obs} (h : exchanges.after .idle log = .waiting) :
    ∃ a b, log = a ++ .deferred :: b ∧ ∀ r, .notified r ∉ b := by
  induction log using List.reverseRecOn with
  | nil => cases h
  | append_singleton log o ih =>
    rw [Monitor.after_append] at h
    have hkeep : exchanges.after .idle log = .waiting → (∀ r, o ≠ .notified r) →
        ∃ a b, log ++ [o] = a ++ .deferred :: b ∧ ∀ r, .notified r ∉ b := by
      intro hw ho
      obtain ⟨a, b, rfl, hb⟩ := ih hw
      refine ⟨a, b ++ [o], by rw [List.append_assoc, List.cons_append], fun r hr => ?_⟩
      rcases List.mem_append.mp hr with hr | hr
      · exact hb r hr
      · exact ho r (List.mem_singleton.mp hr).symm
    cases o with
    | deferred => exact ⟨log, [], rfl, fun _ => List.not_mem_nil⟩
    | dispatched _ | notified _ | replying _ | replied _ _ | readStarted => cases h
    | callback _ | parsed _ _ | requestIdLogged _ | methodLogged _ | timedOut _ =>
      exact hkeep h fun _ => Obs.noConfusion

theorem notified_until_replying {b : List Obs} {r : Reply} (h : exchanges.Accepts (.notified r) b)
    (hb : ∀ o ∈ b, o.isReplying = false) : exchanges.after (.notified r) b = .notified r := by
  refine Monitor.after_of_exit (fun o => o.isReplying = true) (fun o hok hexit => ?_) h ?_
  · rcases exit_of_ok hok Exchange.noConfusion Exchange.noConfusion Exchange.noConfusion with
      hn | ⟨hq, -⟩ | ⟨r, -, rfl⟩ | ⟨r, sent, buffers, hr, -⟩
    · exact hn
    · cases hq
    · exact absurd rfl hexit
    · cases hr
  · intro o ho
    rw [hb o ho]
    exact Bool.false_ne_true

theorem sending_until_replied {b : List Obs} {r : Reply} (h : exchanges.Accepts (.sending r) b)
    (hb : ∀ sent buffers, .replied sent buffers ∉ b) :
    exchanges.after (.sending r) b = .sending r := by
  refine Monitor.after_of_exit (fun o => ∃ s b, o = .replied s b) (fun o hok hexit => ?_) h ?_
  · rcases exit_of_ok hok Exchange.noConfusion Exchange.noConfusion Exchange.noConfusion with
      hn | ⟨hq, -⟩ | ⟨r, hr, -⟩ | ⟨r, sent, buffers, -, ho⟩
    · exact hn
    · cases hq
    · cases hr
    · exact absurd ⟨sent, buffers, ho⟩ hexit
  · rintro o ho ⟨sent, buffers, rfl⟩
    exact hb sent buffers ho

section Orderly

variable {State : Type} {s t : Session State}

/-- The properties of the log follow from its acceptance. -/
theorem orderly_of_accepts {onItsWay : Prop} (h : exchanges.Accepts .idle s.log)
    (howed : s.fault = none → s.exchange ≠ .dispatched ∧ ∀ r, s.exchange = .notified r → onItsWay)
    (hstable : ∀ w ∈ s.writes, w.reply = s.conn.reply) : Orderly s onItsWay := by
  refine ⟨?_, ?_, howed, ?_, ?_, ?_, hstable⟩
  · intro a r b c hl hb
    obtain ⟨h, hread⟩ := Monitor.Accepts.between (hl ▸ h)
    obtain ⟨hne, hcount⟩ := count_replying h Exchange.noConfusion hb
    rcases hread with hread | hread
    · exact absurd hread hne
    · rw [hread] at hcount
      exact hcount
  · intro a r b hl hb
    rw [hl, Monitor.accepts_append] at h
    obtain ⟨-, hcount⟩ := count_replying h.2.2 Exchange.noConfusion hb
    have hle : ∀ q : Exchange, q.answered ≤ 1 := by
      intro q
      cases q <;> simp [Exchange.answered]
    exact hcount.le.trans (hle _)
  · intro a b r c hl
    by_contra hn
    rw [not_exists] at hn
    obtain ⟨h, hreply⟩ := Monitor.Accepts.between (hl ▸ h)
    have hw : exchanges.after (exchanges.next (exchanges.after .idle a) .deferred) b = .waiting :=
      waiting_until_notified h hn
    rw [hw] at hreply
    rcases hreply with hreply | hreply | hreply <;> cases hreply
  · intro a r b r' c hl hb
    obtain ⟨h, hreply⟩ := Monitor.Accepts.between (hl ▸ h)
    have hw : exchanges.after (exchanges.next (exchanges.after .idle a) (.notified r)) b =
        .notified r := notified_until_replying h hb
    rw [hw] at hreply
    rcases hreply with hreply | hreply | hreply <;> cases hreply
    rfl
  · intro a r b sent buffers c hl hb
    obtain ⟨h, hwritten⟩ := Monitor.Accepts.between (hl ▸ h)
    have hw : exchanges.after (exchanges.next (exchanges.after .idle a) (.replying r)) b =
        .sending r := sending_until_replied h hb
    rw [hw] at hwritten
    obtain ⟨r', hr, hsent⟩ := hwritten
    cases hr
    exact hsent

/-- A reply sent while the handler is still awaited. -/
theorem not_orderly_of_early {onItsWay : Prop} {r : Reply} {l : List Obs}
    (hx : s.exchange = .waiting) (hl : t.log = s.log ++ .replying r :: l) :
    ¬ Orderly t onItsWay := by
  intro ho
  obtain ⟨a, b, hlog, hb⟩ := deferred_of_waiting hx
  obtain ⟨r', hr⟩ := ho.patient a b r l (by rw [hl, hlog])
  exact hb r' hr

end Orderly

end CsiHttp.Server
