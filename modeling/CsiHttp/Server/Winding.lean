import CsiHttp.Server.Stages

/-!
# What a connection can still go through

When the client is gone, every read, write and handshake that is under way fails. None of the
handlers of a failure starts an operation, a deferred reply apart: it is still sent once. So what
is under way is used up, the deadline of the timer included.
-/
namespace CsiHttp.Server

open Lib Lib.Text

namespace Session

variable {State : Type} {s t : Session State}

/-- A bound for what can happen to a connection without a client. A posted call starts one write
more; the deadline of a wait queues its completion, which may send a reply. -/
def load (s : Session State) : Nat :=
  s.reads + s.writes.length + 2 * s.posted + s.handshakes + 3 * s.timer.pending.length +
    2 * s.timer.queued.length

theorem load_cancelTimer (s : Session State) : s.cancelTimer.load ≤ s.load := by
  unfold load
  change s.reads + s.writes.length + 2 * s.posted + s.handshakes + 3 * 0 +
    2 * s.timer.cancel.queued.length ≤ _
  rw [DeadlineTimer.cancel_queued, List.length_append, List.length_map]
  omega

theorem load_expire (h : s.timer.pending ≠ []) :
    ({ s with timer := s.timer.expire } : Session State).load < s.load := by
  have hpos := List.length_pos_iff.mpr h
  unfold load
  change s.reads + s.writes.length + 2 * s.posted + s.handshakes + 3 * 0 +
    2 * s.timer.expire.queued.length < _
  rw [DeadlineTimer.expire_queued, List.length_append, List.length_map]
  omega

theorem load_dequeue {i : Nat} {c : Completion Waiter} {timer : DeadlineTimer Waiter}
    (h : s.timer.dequeue i = some (c, timer)) :
    ({ s with timer := timer } : Session State).load + 2 = s.load := by
  obtain ⟨hc, rfl⟩ := DeadlineTimer.dequeue_eq_some h
  obtain ⟨hi, -⟩ := List.getElem?_eq_some_iff.mp hc
  unfold load
  change s.reads + s.writes.length + 2 * s.posted + s.handshakes + 3 * s.timer.pending.length +
    2 * (s.timer.queued.eraseIdx i).length + 2 = _
  rw [List.length_eraseIdx_of_lt hi]
  omega

theorem length_writes_startWrite (s : Session State) :
    s.startWrite.writes.length ≤ s.writes.length + 1 := by
  unfold startWrite
  split
  · exact Nat.le_succ _
  · change (s.writes ++ [_]).length ≤ _
    rw [List.length_append]
    rfl

theorem load_sendReply (E : Externals) (s : Session State) : (s.sendReply E).load ≤ s.load + 1 := by
  obtain ⟨hr, hp, hh, ht⟩ := sendReply_counts E s
  have hw : (s.sendReply E).writes.length ≤ s.writes.length + 1 := by
    have hstart := length_writes_startWrite
      ((((s.note (.replying s.conn.reply)).logRequest E).setWaiting false).addClose)
    rwa [(sendReply_prepared E s).writes] at hstart
  unfold load
  rw [hr, hp, hh, ht]
  omega

end Session

/-- What the handlers of a transport add to the operations under way when the client is gone.
`shutdowns` are the calls of `async_shutdown` that the handler of a wait makes. -/
structure Transport.Winds {State : Type} (T : Transport State) (shutdowns : ErrorCode → Nat) :
    Prop where
  handshake : ∀ e s, e ≠ .success → (T.handleHandshake e s).load ≤ s.load
  read : ∀ e bytes ops s, e ≠ .success → (T.handleRead e bytes ops s).load ≤ s.load
  write : ∀ e s, e ≠ .success → (T.handleWrite e s).load ≤ s.load
  wait : ∀ w e s, (T.handleWait w e s).load + shutdowns e ≤ s.load + 1
  asyncReplyDone : ∀ s, (T.handleAsyncReplyDone s).load ≤ s.load + 1

open Session

theorem HttpConnection.winds (E : Externals) :
    (HttpConnection.transport E).Winds (fun _ => 0) where
  handshake _ _ _ := Nat.le_refl _
  read e bytes ops s he := by
    cases e with
    | success => exact absurd rfl he
    | operationAborted => exact Nat.le_refl _
    | failure => exact load_cancelTimer s
  write e s he := by
    cases e with
    | success => exact absurd rfl he
    | operationAborted => exact Nat.le_refl _
    | failure =>
      change (HttpConnection.handleWrite .failure s).load ≤ s.load
      unfold HttpConnection.handleWrite
      dsimp only
      split
      · exact Nat.le_refl _
      · exact load_cancelTimer s
  wait w e s := by
    cases e with
    | success | operationAborted | failure => exact Nat.le_succ s.load
  asyncReplyDone s :=
    Nat.le_trans (load_sendReply E s.cancelTimer) (Nat.succ_le_succ (load_cancelTimer s))

/-- Here the deadline of a wait also makes a call of `async_shutdown`. -/
theorem HttpsConnection.winds (E : Externals) :
    (HttpsConnection.transport E).Winds (fun e => if e = .success then 1 else 0) where
  handshake e s he := by
    cases e with
    | success => exact absurd rfl he
    | operationAborted | failure => exact Nat.le_refl _
  read e bytes ops s he := by
    cases e with
    | success => exact absurd rfl he
    | operationAborted | failure => exact Nat.le_refl _
  write e s he := by
    cases e with
    | success => exact absurd rfl he
    | operationAborted | failure => exact Nat.le_refl _
  wait w e s := by
    obtain ⟨h, epoch⟩ := w
    cases h with
    | handleTimer =>
      cases e with
      | success => exact Nat.le_refl _
      | operationAborted | failure => exact Nat.le_succ s.load
    | handleAsyncCall =>
      cases e with
      | success => exact Nat.le_refl _
      | operationAborted => exact Session.load_sendReply E s
      | failure => exact Nat.le_succ s.load
  asyncReplyDone s := Nat.le_succ s.load

end CsiHttp.Server
