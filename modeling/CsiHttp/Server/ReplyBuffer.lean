import CsiHttp.Lib.Runs
import CsiHttp.Server.Frame
import CsiHttp.Server.Parse
import CsiHttp.Server.TableParser

/-!
# The content buffer of the reply

`request_t` resets itself when it is constructed, `reply_t` does not: its buffer comes
into being with the first `on_message_begin`. Until then the connection only reads, and
the one use of the reply it can come to is the 400 for bytes that start no message.
-/
namespace CsiHttp.Server

open Lib Lib.Text Lib.Runs

section Buffered

variable {E : Externals} {phase : E.parser.State → Phase}
variable {s t : Session E.parser.State} {ev : Event}

def Begun (s : Session E.parser.State) : Prop := .callback .messageBegin ∈ s.log

/-- Nothing has reached the connection yet but blank bytes. -/
structure Untouched (phase : E.parser.State → Phase) (s : Session E.parser.State) : Prop where
  begun : ¬ Begun s
  parser : ∃ st, s.conn.parser = some st ∧ phase st = .idle
  complete : s.conn.requestComplete = false
  buffer : ¬ s.conn.reply.HasBuffer
  writes : s.writes = []
  posted : s.posted = 0
  lent : s.lent = false
  timer : NoAsyncCall s.timer
  fault : s.fault = none

theorem Untouched.not_touches (h : Untouched phase s) (ev : Event) : ¬ Touches s ev :=
  OnlyReads.not_touches ⟨h.writes, h.posted, h.lent, h.timer⟩ ev

structure Buffered (s : Session E.parser.State) : Prop where
  begun : Begun s
  buffer : s.conn.reply.HasBuffer
  fault : s.fault ≠ some .nullReplyBuffer

/-- As long as no message has begun, the parser takes all bytes it makes no callback for. -/
def StartsCleanly (s : Session E.parser.State) (ev : Event) : Prop :=
  ∀ bytes ops st, ev = .read .success bytes ops → s.conn.parser = some st → ¬ Begun s →
    (E.parser.execute st bytes).calls = [] → (E.parser.execute st bytes).nparsed = bytes.length

theorem Untouched.of_calm (h : Untouched phase s) (hc : Session.Calm s t) : Untouched phase t := by
  obtain ⟨l, hl, hcalm⟩ := hc.log
  refine ⟨?_, ?_, ?_, ?_, ?_, ?_, ?_, hc.timer h.timer, hc.fault.trans h.fault⟩
  · unfold Begun
    rw [hl]
    intro hm
    rcases List.mem_append.mp hm with hm | hm
    · exact h.begun hm
    · rcases hcalm _ hm with hm | ⟨w, hm⟩ <;> cases hm
  · rw [hc.conn]
    exact h.parser
  · rw [hc.conn]
    exact h.complete
  · rw [hc.conn]
    exact h.buffer
  · rw [hc.writes, h.writes]
  · rw [hc.posted, h.posted]
  · rw [hc.lent, h.lent]

theorem Buffered.of_quiet (h : Buffered s) (hq : Session.Quiet s t) : Buffered t := by
  refine ⟨hq.log_prefix.subset h.begun, hq.buffer h.buffer, ?_⟩
  rw [hq.fault h.buffer]
  exact h.fault

/-- `http_parse` keeps the buffer, or gets it with the first message. -/
theorem buffered_parsed {bytes : Bytes} {n : Nat} (hf : s.fault = none)
    (h : Buffered s ∨ .messageBegin ∈ (s.conn.httpParse E.parser bytes).made) :
    Buffered ((s.parse E bytes).note (.parsed bytes.length n)) := by
  refine ⟨?_, (Connection.httpParse_buffer_iff _ _).mpr (h.imp_left Buffered.buffer), ?_⟩
  · refine List.mem_append_left _ ?_
    rcases h with h | h
    · exact List.mem_append_left _ h.begun
    · exact List.mem_append_right _ (List.mem_map_of_mem h)
  · change s.fault ≠ _
    rw [hf]
    intro hn
    cases hn

theorem Buffered.of_outcome {bytes : Bytes} (hf : s.fault = none)
    (h : Buffered s ∨ .messageBegin ∈ (s.conn.httpParse E.parser bytes).made)
    (ht : ReadOutcome E bytes s t) : Buffered t := by
  have hp := fun n => buffered_parsed (n := n) hf h
  cases ht with
  | crashed f hres ht =>
    subst ht
    have hb := hp 0
    obtain rfl := Connection.httpParse_error hres
    refine ⟨?_, hb.buffer, ?_⟩
    · exact (List.mem_append.mp hb.begun).resolve_right (by simp)
    · intro hn
      cases hn
  | rejected n _ _ ht _ => exact (hp n).of_quiet ht
  | more _ _ ht => exact (hp _).of_quiet ht.quiet
  | dispatched r _ _ _ ht =>
    have hb := hp bytes.length
    obtain ⟨l, l', hl, -, -⟩ := ht.log
    refine ⟨?_, ht.buffer hb.buffer, ?_⟩
    · unfold Begun
      rw [hl, List.append_assoc]
      exact List.mem_append_left _ hb.begun
    · rw [ht.fault hb.buffer]
      exact hb.fault

/-- A read without any callback. -/
theorem httpParse_without_calls {bytes : Bytes} {st : E.parser.State}
    (hst : s.conn.parser = some st) (hcalls : (E.parser.execute st bytes).calls = []) :
    s.conn.httpParse E.parser bytes =
      ⟨{ s.conn with parser := (E.parser.execute st bytes).after }, [],
        .ok (E.parser.execute st bytes).nparsed⟩ := by
  rw [Connection.httpParse_finished hst bytes (by rw [hcalls]; rfl), hcalls]
  rfl

/-- It leaves an untouched connection untouched if the parser took all of it. -/
theorem Untouched.parsed {bytes : Bytes} {st : E.parser.State} (hP : E.parser.Documented phase)
    (h : Untouched phase s) (hst : s.conn.parser = some st) (hidle : phase st = .idle)
    (hcalls : (E.parser.execute st bytes).calls = [])
    (hlen : (E.parser.execute st bytes).nparsed = bytes.length) (n : Nat) :
    Untouched phase ((s.parse E bytes).note (.parsed bytes.length n)) := by
  have hparse := httpParse_without_calls hst hcalls
  refine ⟨?_, ?_, ?_, ?_, h.writes, h.posted, h.lent, h.timer, h.fault⟩
  · change ¬ _ ∈ s.log ++ (s.conn.httpParse E.parser bytes).made.map .callback ++ _
    rw [hparse]
    intro hm
    have hm := (List.mem_append.mp hm).resolve_right (by simp)
    exact h.begun ((List.mem_append.mp hm).resolve_right List.not_mem_nil)
  · change ∃ st, (s.conn.httpParse E.parser bytes).conn.parser = some st ∧ _
    rw [hparse]
    cases hafter : (E.parser.execute st bytes).after with
    | none => exact absurd hlen (hP.short st bytes hafter)
    | some st' =>
      obtain ⟨ph, hf, hph⟩ := hP.ordered st bytes
      rw [hcalls] at hf
      exact ⟨st', rfl, (hph st' hafter).trans ((Option.some.inj hf).symm.trans hidle)⟩
  · change (s.conn.httpParse E.parser bytes).conn.requestComplete = false
    rw [hparse]
    exact h.complete
  · change ¬ (s.conn.httpParse E.parser bytes).conn.reply.HasBuffer
    rw [hparse]
    exact h.buffer

theorem buffered_step {T : Transport E.parser.State} (hT : T.Lawful)
    (hP : E.parser.Documented phase) (h : Buffered s ∨ Untouched phase s) (hc : StartsCleanly s ev)
    (hs : s.step E T ev = some t) : Buffered t ∨ Untouched phase t := by
  obtain ⟨hf, hout⟩ := step_outcome hT hs
  cases hout with
  | calm _ ht => exact h.imp (fun h => h.of_quiet ht.quiet) (fun h => h.of_calm ht)
  | quiet _ ht htouched =>
    rcases h with h | h
    · exact Or.inl (h.of_quiet ht)
    · exfalso
      exact h.not_touches ev htouched
  | read bytes ops s' hev hb hs' ht =>
    have hf' := hs'.fault.trans hf
    rcases h with h | h
    · have h' := h.of_quiet hs'.quiet
      exact Or.inl (Buffered.of_outcome hf' (Or.inl h') ht)
    · have h' := h.of_calm hs'
      obtain ⟨st, hst, hidle⟩ := h'.parser
      by_cases hcalls : (E.parser.execute st bytes).calls = []
      · right
        have hlen := hc bytes ops st hev (hs'.conn ▸ hst) h.begun hcalls
        have hparse := httpParse_without_calls hst hcalls
        cases ht with
        | crashed f hres _ =>
          rw [hparse] at hres
          cases hres
        | rejected n hres hn _ _ =>
          rw [hparse] at hres
          exact absurd ((Except.ok.inj hres).symm.trans hlen) hn
        | dispatched r _ hflag _ =>
          change (s'.conn.httpParse E.parser bytes).conn.requestComplete = true at hflag
          rw [hparse] at hflag
          cases hflag.symm.trans h'.complete
        | more _ _ ht => exact (h'.parsed hP hst hidle hcalls hlen bytes.length).of_calm ht
      · have hbegins := Connection.httpParse_begins hP hst hidle hcalls
        exact Or.inl (Buffered.of_outcome hf' (Or.inr hbegins) ht)

/-- Bytes that the parser rejects first thing are answered through the null buffer. -/
theorem rejected_first_breaks {T : Transport E.parser.State} (hT : T.Lawful)
    (h : Buffered s ∨ Untouched phase s) (hc : ¬ StartsCleanly s ev)
    (hs : s.step E T ev = some t) : t.fault = some .nullReplyBuffer := by
  unfold StartsCleanly at hc
  push Not at hc
  obtain ⟨bytes, ops, st, rfl, hst, hbegun, hcalls, hlen⟩ := hc
  have h := h.resolve_left (fun h => hbegun h.begun)
  obtain ⟨hf, hout⟩ := step_outcome hT hs
  cases hout with
  | calm hev _ => exact absurd rfl (hev bytes ops)
  | quiet hev _ _ => exact absurd rfl (hev bytes ops)
  | read bytes' ops' s' hev hb hs' ht =>
    obtain ⟨-, rfl, rfl⟩ := Event.read.inj hev
    have h' := h.of_calm hs'
    have hparse := httpParse_without_calls (hs'.conn ▸ hst) hcalls
    cases ht with
    | crashed f hres _ =>
      rw [hparse] at hres
      cases hres
    | rejected n _ _ _ hnull =>
      apply hnull
      change ¬ (s'.conn.httpParse E.parser bytes).conn.reply.HasBuffer
      rw [hparse]
      exact h'.buffer
    | dispatched r hres _ _ =>
      rw [hparse] at hres
      exact absurd (Except.ok.inj hres) hlen
    | more hres _ _ =>
      rw [hparse] at hres
      exact absurd (Except.ok.inj hres) hlen

theorem no_null_iff_along {T : Transport E.parser.State} (hT : T.Lawful)
    (hP : E.parser.Documented phase) (h : Untouched phase s) {es : List Event}
    (hr : runs (Session.step E T) s es = some t) :
    t.fault ≠ some .nullReplyBuffer ↔ Along (Session.step E T) StartsCleanly s es := by
  have hmono : ∀ s ev t, Session.step E T s ev = some t → t.fault ≠ some .nullReplyBuffer →
      s.fault ≠ some .nullReplyBuffer := by
    intro s ev t hs _ hn
    rw [(step_outcome hT hs).1] at hn
    cases hn
  rw [← throughout_iff_last hmono hr]
  refine throughout_iff_along (I := fun s => Buffered s ∨ Untouched phase s) ?_
    (fun s ev t hs _ hc ht => buffered_step hT hP hs hc ht)
    (fun s ev t hs _ hc ht hq => hq (rejected_first_breaks hT hs hc ht)) (Or.inr h)
    (along_of_forall (fun _ _ => trivial) s es) hr
  rintro s (hs | hs)
  · exact hs.fault
  · rw [hs.fault]
    intro hn
    cases hn

end Buffered

theorem untouched_new {E : Externals} {phase : E.parser.State → Phase}
    (hP : E.parser.Documented phase) (tag : Bytes) (junk : Uninitialised) :
    Untouched phase (Session.new (.new tag junk E.parser.init)) :=
  ⟨List.not_mem_nil, ⟨_, rfl, hP.init_idle⟩, rfl, Bool.noConfusion, rfl, rfl, rfl,
    ⟨List.forall_mem_nil _, List.forall_mem_nil _⟩, rfl⟩

/-- On either transport the reply buffer is there whenever it is used exactly when no read
is rejected before the first message of the connection has begun. -/
theorem reply_buffer_iff {E : Externals} {phase : E.parser.State → Phase}
    (hP : E.parser.Documented phase) (tag : Bytes) (junk : Uninitialised) (es : List Event) :
    (∀ u, runs (HttpConnection.step E) (HttpConnection.start E tag junk) es = some u →
      (u.fault ≠ some .nullReplyBuffer ↔
        Along (HttpConnection.step E) StartsCleanly (HttpConnection.start E tag junk) es)) ∧
    (∀ u, runs (HttpsConnection.step E) (HttpsConnection.start E tag junk) es = some u →
      (u.fault ≠ some .nullReplyBuffer ↔
        Along (HttpsConnection.step E) StartsCleanly (HttpsConnection.start E tag junk) es)) := by
  have hnew := untouched_new hP tag junk
  constructor
  · intro u hu
    exact no_null_iff_along (HttpConnection.lawful E) hP (hnew.of_calm (Session.calm_startRead _)) hu
  · intro u hu
    refine no_null_iff_along (HttpsConnection.lawful E) hP (hnew.of_calm ?_) hu
    exact .of_same rfl rfl rfl rfl rfl id rfl

/-- No method begins with a question mark. -/
def questionMark : List Event := [.read .success (ascii "?") []]

/-- A parser that takes no request at all. -/
def deafServer : Externals := ⟨tableParser [], plainUuids⟩

theorem reply_buffer_iff_questionMark :
    (∀ u, runs (HttpConnection.step deafServer) (HttpConnection.start deafServer [] .zero)
        questionMark = some u →
      (u.fault ≠ some .nullReplyBuffer ↔ Along (HttpConnection.step deafServer) StartsCleanly
        (HttpConnection.start deafServer [] .zero) questionMark)) ∧
    (∀ u, runs (HttpsConnection.step deafServer) (HttpsConnection.start deafServer [] .zero)
        questionMark = some u →
      (u.fault ≠ some .nullReplyBuffer ↔ Along (HttpsConnection.step deafServer) StartsCleanly
        (HttpsConnection.start deafServer [] .zero) questionMark)) :=
  reply_buffer_iff (tableParser_documented []) [] .zero questionMark

theorem questionMark_null :
    ∃ u, runs (HttpConnection.step deafServer) (HttpConnection.start deafServer [] .zero)
      questionMark = some u ∧ ¬ u.fault ≠ some .nullReplyBuffer :=
  ⟨_, rfl, fun hne => hne rfl⟩

end CsiHttp.Server
