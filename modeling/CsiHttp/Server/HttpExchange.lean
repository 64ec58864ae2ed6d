import CsiHttp.Lib.Runs
import CsiHttp.Server.Stages
import CsiHttp.Server.TableParser

/-!
# One activity at a time on `http_connection`

With disciplined handlers every event leaves a settled connection settled. The posted
call of `handle_async_reply_done` is the only way in which a deferred reply is sent, so
no call of `send_reply` is queued while the handler has not notified.
-/
namespace CsiHttp.Server

open Lib Lib.Text Lib.Runs

namespace HttpConnection

section Handlers

variable {State : Type} {s : Session State}

theorem counting (E : Externals) :
    Counting 0 Session.reads Session.posted (async E : AsyncReply State) where
  same _ _ hr hp _ _ := ⟨hr, hp⟩
  rearm _ _ := ⟨rfl, rfl⟩
  startRead _ := ⟨rfl, rfl⟩
  wait _ := ⟨rfl, rfl⟩
  notify _ := ⟨rfl, rfl⟩
  waits _ := ⟨rfl, rfl, rfl⟩
  notifies s := ⟨⟨_, List.append_assoc s.log [_] [_]⟩, rfl, rfl, rfl⟩

theorem gentle : Gentle (id : Session State → Session State) :=
  ⟨fun _ => rfl, fun _ => rfl, fun _ => rfl, fun _ => rfl, fun _ => rfl, fun _ => rfl,
    fun _ => rfl, fun _ => rfl⟩

/-- The invariant of a run. -/
abbrev Settled (s : Session State) : Prop := Server.Settled 0 Session.reads Session.posted s

theorem settled_same {t : Session State} (h : Settled s) (hl : t.log = s.log)
    (hw : t.writes = s.writes) (hc : t.conn = s.conn) (hf : t.fault = s.fault)
    (hr : t.reads = s.reads) (hp : t.posted = s.posted) : Settled t :=
  h.of_still (hl.trans (List.append_nil _).symm) (List.forall_mem_nil _) hw hc hf hr hp

theorem settled_of_free (h : Free s s.reads s.posted) : Settled s := by
  refine ⟨h.staged, fun _ => ?_⟩
  rw [h.idle]
  exact Exchange.noConfusion

theorem handleTimer_settled (h : Settled s) (w : Wait Waiter) (e : ErrorCode) :
    Settled (handleTimer w e s) := by
  cases e with
  | success =>
    refine h.of_still (l := [.timedOut w]) rfl (List.forall_mem_singleton.mpr ?_) rfl rfl rfl rfl rfl
    exact fun _ => ⟨rfl, trivial⟩
  | operationAborted => exact h
  | failure => exact h

/-- The write has completed: the connection reads the next request, or stays silent. -/
theorem handleWrite_settled (E : Externals) (h : Settled s) {i : Nat} (hi : i < s.writes.length) (e : ErrorCode) :
    Settled (handleWrite e { s with writes := s.writes.eraseIdx i }) := by
  obtain ⟨hx, hr, hw, hp, hf⟩ := h.staged.written hi
  have hsilent : ∀ t : Session State, t.log = s.log → t.reads = s.reads → t.posted = s.posted →
      t.writes = [] → t.conn.waitingForAsyncReply = false → Settled t := by
    intro t hl hr' hp' hw' hf'
    have hx' : t.exchange = .replied := by
      unfold Session.exchange
      rw [hl]
      exact hx
    refine ⟨⟨hl ▸ h.staged.accepts, ?_⟩, fun _ => hx' ▸ Exchange.noConfusion⟩
    rw [hx']
    exact ⟨hr'.trans hr, by rw [hw']; exact Nat.zero_le 1, hp'.trans hp, hf', by
      rw [hw']; exact List.forall_mem_nil _⟩
  unfold handleWrite
  cases e with
  | operationAborted => exact hsilent _ rfl rfl rfl hw hf
  | success =>
    dsimp only
    split
    · exact startRead_settled (counting E) h.staged.accepts (Or.inr hx) hr hw hp hf
    · exact hsilent _ rfl rfl rfl hw hf
  | failure =>
    dsimp only
    split
    · exact hsilent _ rfl rfl rfl hw hf
    · exact hsilent _ rfl rfl rfl hw hf

/-- A call of `send_reply` is queued only for a handler that has notified. -/
theorem Settled.notified_of_posted (h : Settled s) (hp : 0 < s.posted) :
    ∃ r, s.exchange = .notified r := by
  have hs := h.staged.stage
  cases hx : s.exchange with
  | idle | dispatched | waiting | sending _ | replied =>
    rw [hx] at hs
    exact absurd hs.2.2.1 (Nat.pos_iff_ne_zero.mp hp)
  | notified r => exact ⟨r, rfl⟩

/-- The posted call finds the connection as the handler left it. -/
theorem handleAsyncReplyDone_settled (E : Externals) (h : Settled s) (hp : 0 < s.posted) :
    Settled (handleAsyncReplyDone E { s with posted := s.posted - 1 }) := by
  obtain ⟨r, hx⟩ := h.notified_of_posted hp
  have hs := h.staged.stage
  rw [hx] at hs
  obtain ⟨hr, hw, hone, -, hreply⟩ := hs
  refine sendReply_settled (counting E) h.staged.accepts (Or.inr (Or.inr ?_)) hr hw ?_
  · exact hx.trans (congrArg _ hreply.symm)
  · change s.posted - 1 = 0
    omega

end Handlers

variable {E : Externals} {s t : Session E.parser.State} {ev : Event}

theorem handleRead_settled (h : Settled s) (hr : 0 < s.reads) (e : ErrorCode) (bytes : Bytes)
    {ops : List HandlerOp} (hd : Disciplined s (.read e bytes ops)) :
    Settled (handleRead E e bytes ops { s with reads := s.reads - 1 }) := by
  have hx := h.staged.idle_of_starts (Nat.pos_iff_ne_zero.mp hr)
  have hs := h.staged.stage
  rw [hx] at hs
  obtain ⟨hle, hw, hp, hf⟩ := hs
  have hfree : Free { s with reads := s.reads - 1 } (s.reads - 1) s.posted :=
    ⟨h.staged.accepts, hx, by omega, hw, hp, hf⟩
  have hcancel : Free ({ s with reads := s.reads - 1 } : Session E.parser.State).cancelTimer
      (s.reads - 1) s.posted :=
    hfree.of_still (List.append_nil _).symm (List.forall_mem_nil _) rfl rfl
  cases e with
  | operationAborted => exact settled_of_free hfree
  | failure => exact settled_of_free hcancel
  | success => exact readSucceeded_settled (counting E) gentle bytes hd hcancel

theorem step_settled (h : Settled s) (hd : Disciplined s ev) (hs : step E s ev = some t) :
    Settled t := by
  cases (Session.stepped_of_step hs).2 with
  | handshake e hh => exact settled_same h rfl rfl rfl rfl rfl rfl
  | read e bytes ops hr hb => exact handleRead_settled h hr e bytes hd
  | write i e hi => exact handleWrite_settled E h hi e
  | expire hp => exact settled_same h rfl rfl rfl rfl rfl rfl
  | timer i c timer hdeq =>
    have ht : Settled { s with timer := timer } := settled_same h rfl rfl rfl rfl rfl rfl
    exact handleTimer_settled ht c.wait c.code
  | asyncReplyDone hp => exact handleAsyncReplyDone_settled E h hp
  | handler op hl => exact handler_settled (counting E) h hd

theorem start_settled (tag : Bytes) (junk : Uninitialised) : Settled (start E tag junk) :=
  startRead_settled (counting E) trivial (Or.inl rfl) rfl rfl rfl rfl

theorem Settled.orderly (h : Settled s) :
    s.reads + s.writes.length + (if s.exchange.isDeferred then 1 else 0) ≤ 1 ∧
      Orderly s (s.posted = 1) := by
  have hs := h.staged.stage
  have hcount : s.reads + s.writes.length + (if s.exchange.isDeferred then 1 else 0) ≤ 1 := by
    cases hx : s.exchange <;> rw [hx] at hs <;> obtain ⟨hr, hw, -⟩ := hs <;>
      simp only [Exchange.isDeferred, Bool.false_eq_true, if_true, if_false, hr, hw,
        List.length_nil, Nat.add_zero, Nat.zero_add, Nat.le_refl, Nat.zero_le]
  refine ⟨hcount, orderly_of_accepts h.staged.accepts (fun hf => ⟨h.answered hf, ?_⟩) ?_⟩
  · intro r hx
    rw [hx] at hs
    exact hs.2.2.1
  · intro w hw
    have hx := h.staged.replied_of_writes (List.ne_nil_of_mem hw)
    rw [hx] at hs
    exact hs.2.2.2.2 w hw

/-- In every run with disciplined handlers there is at most one of an outstanding read, an
outstanding write and a deferred reply, and the log is orderly. -/
theorem one_at_a_time (E : Externals) (tag : Bytes) (junk : Uninitialised) {es : List Event}
    {u : Session E.parser.State} (hd : Along (step E) Disciplined (start E tag junk) es)
    (h : runs (step E) (start E tag junk) es = some u) :
    u.reads + u.writes.length + (if u.exchange.isDeferred then 1 else 0) ≤ 1 ∧
      Orderly u (u.posted = 1) :=
  (invariant (fun _ _ _ hs hd => step_settled hs hd) (start_settled tag junk) hd h).orderly

/-- The handler defers its reply; the deadline passes before it is sent. -/
def deferredReply : List Event :=
  [.read .success (getBytes (ascii "/")) [.waitForAsyncReply],
    .handler (.create .ok Reply.textHtml 0), .expire, .handler .notifyAsyncReplyDone,
    .asyncReplyDone, .timer 0, .write 0 .success]

theorem one_at_a_time_deferred :
    ∃ u, runs (step getServer) (start getServer [] .zero) deferredReply = some u ∧
      u.reads + u.writes.length + (if u.exchange.isDeferred then 1 else 0) ≤ 1 ∧
        Orderly u (u.posted = 1) := by
  have hrun : ∃ u, runs (step getServer) (start getServer [] .zero) deferredReply = some u :=
    ⟨_, rfl⟩
  obtain ⟨u, hu⟩ := hrun
  exact ⟨u, hu, one_at_a_time getServer [] .zero (by decide +kernel) hu⟩

end HttpConnection

end CsiHttp.Server
