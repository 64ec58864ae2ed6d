import CsiHttp.Client.Transfers

/-!
# The callback of a request

`sock_cb` takes `CURL_POLL_REMOVE` on a socket of the client for the end of a request.
Completions are lost, early and repeated exactly where the two are not the same.
-/
namespace CsiHttp.Client

open Lib Lib.Text Lib.Runs

def Phase.Ended : Phase → Prop
  | .refused | .finished _ => True
  | .idle | .running => False

instance : DecidablePred Phase.Ended
  | .refused | .finished _ => isTrue trivial
  | .idle | .running => isFalse id

namespace HttpClient

variable {c u : HttpClient} {es : List Event}

/-- All work posted to the `io_service` has run. -/
def AtRest (c : HttpClient) : Prop := c.queue = [] ∧ c.timer.queued = []

/-- A request whose transfer has ended is called back, once nothing is left to run. -/
def Answered (h : Nat) (c : HttpClient) : Prop :=
  c.AtRest → (transfer h c.log).phase.Ended → (transfer h c.log).called = true

/-- libcurl stops watching a socket of the client on behalf of a request whose transfer has
ended, once nothing is left to run. -/
def Removed (h : Nat) (c : HttpClient) : Prop :=
  c.AtRest → (transfer h c.log).phase.Ended → (transfer h c.log).removed = true

/-- `CURL_POLL_REMOVE` on a socket of the client is the only way to the callback. -/
theorem answered_iff_removed (method : Nat → Nat) (content : Nat → Bytes) (h : Nat)
    (hr : runs step (new method content) es = some u) : Answered h u ↔ Removed h u := by
  have hcalled := (runs_agrees hr h).here.called
  unfold Answered Removed
  rw [hcalled]

/-- The name of the host is not found: libcurl finishes without ever opening a socket. -/
def unresolved : List Event :=
  [.performAsync 0, .run 0 true [.multiTimer 1], .expire, .timer 0 [.finish 0, .multiTimer (-1)]]

theorem answered_iff_removed_unresolved :
    ∃ u, runs step (new (fun _ => 1) (fun _ => [])) unresolved = some u ∧
      (Answered 0 u ↔ Removed 0 u) := by
  have hrun : ∃ u, runs step (new (fun _ => 1) (fun _ => [])) unresolved = some u := ⟨_, rfl⟩
  obtain ⟨u, hu⟩ := hrun
  exact ⟨u, hu, answered_iff_removed _ _ 0 hu⟩

theorem unresolved_not_answered :
    ∃ u, runs step (new (fun _ => 1) (fun _ => [])) unresolved = some u ∧ ¬ Answered 0 u := by
  have hrun : ∃ u, runs step (new (fun _ => 1) (fun _ => [])) unresolved = some u ∧
      u.AtRest ∧ (transfer 0 u.log).phase = .finished 0 ∧ (transfer 0 u.log).called = false :=
    ⟨_, rfl, ⟨rfl, rfl⟩, rfl, rfl⟩
  obtain ⟨u, hu, hrest, hphase, hcalled⟩ := hrun
  refine ⟨u, hu, fun ha => ?_⟩
  have hend : (transfer 0 u.log).phase.Ended := by
    rw [hphase]
    trivial
  exact Bool.false_ne_true (hcalled.symm.trans (ha hrest hend))

/-- A request is called back once, with the final result, and never loses its context, if
and only if libcurl stops watching its sockets last of all. -/
theorem callsBackOnce_iff (method : Nat → Nat) (content : Nat → Bytes) (h : Nat)
    (hr : runs step (new method content) es = some u) :
    (callsBackOnce h).Accepts .new u.log ↔ (removedLast h).Accepts .new u.log :=
  (runs_agrees hr h).judged.calls

/-- The first answer redirects to another host: libcurl is done with the first socket and
goes on with a second one. -/
def redirected : List Event :=
  [.performAsync 0, .run 0 true [.multiTimer 1], .expire,
    .timer 0 [.opensocket true true 5, .sockCb 0 5 .pollIn []], .ready 0,
    .run 0 true [.response 0 302, .sockCb 0 5 .pollRemove [], .opensocket true true 6,
      .sockCb 0 6 .pollOut []]]

theorem callsBackOnce_iff_redirected :
    ∃ u, runs step (new (fun _ => 1) (fun _ => [])) redirected = some u ∧
      ((callsBackOnce 0).Accepts .new u.log ↔ (removedLast 0).Accepts .new u.log) := by
  have hrun : ∃ u, runs step (new (fun _ => 1) (fun _ => [])) redirected = some u := ⟨_, rfl⟩
  obtain ⟨u, hu⟩ := hrun
  exact ⟨u, hu, callsBackOnce_iff _ _ 0 hu⟩

/-- The callback is told of the redirection, before the transfer has finished. -/
theorem redirected_called_early :
    ∃ u, runs step (new (fun _ => 1) (fun _ => [])) redirected = some u ∧
      ¬ (callsBackOnce 0).Accepts .new u.log := by
  have hrun : ∃ u x, runs step (new (fun _ => 1) (fun _ => [])) redirected = some u ∧
      u.log = u.log.take 7 ++ .called 0 x :: u.log.drop 8 ∧
        (transfer 0 (u.log.take 7)).phase = .running := ⟨_, _, rfl, rfl, rfl⟩
  obtain ⟨u, x, hu, hlog, hphase⟩ := hrun
  refine ⟨u, hu, fun ha => ?_⟩
  rw [hlog] at ha
  have hfin := (ha.at rfl).1
  rw [show ((callsBackOnce 0).after .new (u.log.take 7)).phase = .running from hphase] at hfin
  cases hfin

/-! ## Sending a request again -/

end HttpClient

end CsiHttp.Client
