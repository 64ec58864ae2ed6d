import CsiHttp.Server.HttpRequests
import CsiHttp.Server.Rejection

/-!
# Clients that send clean messages

A callback is refused, and with it the rest of a read, only in a message that is not taken.
A client all of whose messages are taken is never answered with a 400, however its stream is cut,
and if it is cut after each message all of them are passed on.
-/
namespace CsiHttp.Server.HttpConnection

open Lib Lib.Text Lib.Runs Lib.Framing

variable {E : Externals} {sent : List Sent} {ps : List Bytes} {bytes : Bytes}
variable {s t : Session E.parser.State} {ev : Event}

/-- A read is parsed to its end. -/
theorem Live.result (htaken : ∀ m ∈ sent, m.Taken E.parser.parseUrl) (h : Live sent ps s)
    (hb : bytes ≠ []) (hcarries : Carries E.parser sent (ps ++ [bytes])) :
    (s.conn.httpParse E.parser bytes).result = .ok bytes.length := by
  obtain ⟨st, st', part', c0, hres⟩ := h.resumed hcarries
  have hstop : (s.conn.deliver E.parser.parseUrl (E.parser.execute st bytes).calls).stop =
      .finished := by
    by_contra hstop
    rcases hres.blame hb hstop with ⟨m, hmem, hm⟩ | ⟨-, m, l, hrest, hm⟩
    · refine hm (htaken m ?_)
      rw [← whole_append_rest Sent.size sent (ps.flatten.length + bytes.length),
        (whole_add Sent.size sent ps.flatten.length bytes.length).1]
      exact List.mem_append_left _ (List.mem_append_right _ hmem)
    · refine hm (htaken m ?_)
      rw [← whole_append_rest Sent.size sent (ps ++ [bytes]).flatten.length, hrest]
      exact List.mem_append_right _ List.mem_cons_self
  exact (hres.parsed hb hstop).1

theorem parsedWhole_read (h : ParsedWhole s.log)
    (hres : (s.conn.httpParse E.parser bytes).result = .ok bytes.length)
    (ht : ReadOutcome E bytes s t) : ParsedWhole t.log := by
  have hparsed : ParsedWhole ((s.parse E bytes).note (.parsed bytes.length bytes.length)).log :=
    (h.append (parsedWhole_callbacks _)).append (parsedWhole_singleton _)
  cases ht with
  | crashed f hres' ht => cases hres.symm.trans hres'
  | rejected n hres' hn _ _ => exact absurd (Except.ok.inj (hres'.symm.trans hres)) hn
  | dispatched r _ _ _ ht =>
    obtain ⟨l, l', hl, hq, hq'⟩ := ht.log
    rw [hl]
    refine (hparsed.append (parsedWhole_quiet hq)).append ?_
    intro m n hm
    rcases List.mem_cons.mp hm with hm | hm
    · cases hm
    · exact parsedWhole_quiet hq' m n hm
  | more _ _ ht =>
    obtain ⟨l, hl, hq⟩ := ht.quiet.log
    rw [hl]
    exact hparsed.append (parsedWhole_quiet hq)

theorem parsedWhole_step (htaken : ∀ m ∈ sent, m.Taken E.parser.parseUrl)
    (h : Serving sent ps s) (hwhole : ParsedWhole s.log) (hs : step E s ev = some t)
    (hcarries : Carries E.parser sent (ps ++ ev.portion.toList)) : ParsedWhole t.log := by
  obtain ⟨hf, hout⟩ := step_outcome (lawful E) hs
  have hquiet : Session.Quiet s t → ParsedWhole t.log := by
    intro hq
    obtain ⟨l, hl, hq⟩ := hq.log
    rw [hl]
    exact hwhole.append (parsedWhole_quiet hq)
  cases hout with
  | calm hev ht => exact hquiet ht.quiet
  | quiet hev ht _ => exact hquiet ht
  | read bytes ops s' hev hb hs' ht =>
    subst hev
    have hne : bytes ≠ [] := by
      rintro rfl
      cases hb
    have hx : s.exchange = .idle := by
      cases (Session.stepped_of_step hs).2 with
      | read e bytes ops hr hb =>
        exact h.settled.staged.idle_of_starts (Nat.pos_iff_ne_zero.mp hr)
    obtain ⟨l, hl, hq⟩ := hs'.quiet.log
    have hwhole' : ParsedWhole s'.log := by
      rw [hl]
      exact hwhole.append (parsedWhole_quiet hq)
    rcases h.parser hf with hlive | hdead
    · have hlive' := hlive.of_quiet hs'.quiet fun _ => hs'
      exact parsedWhole_read hwhole' (hlive'.result htaken hne hcarries) ht
    · obtain ⟨-, a, m, b, hsent, -, -, hm⟩ := hdead
      refine absurd (htaken m ?_) hm
      rw [hsent]
      exact List.mem_append_right _ List.mem_cons_self

/-- A client that sends clean messages has every one of them passed on that ends with a read, and
no read of its connection is refused. -/
theorem clean_runs (hurl : ReadsTargets E.parser.parseUrl) (tag : Bytes) (junk : Uninitialised)
    {es : List Event} {u : Session E.parser.State} (hclean : ∀ m ∈ sent, m.Clean E.parser.parseUrl)
    (hcarries : Carries E.parser sent (portions es))
    (haligned : Aligned Sent.size sent ((portions es).map List.length))
    (hd : Along (step E) Disciplined (start E tag junk) es)
    (h : runs (step E) (start E tag junk) es = some u) :
    dispatchedViews u.log = (whole Sent.size sent (portions es).flatten.length).map
        (Sent.own E.parser.parseUrl) ∧ ParsedWhole u.log := by
  have htaken : ∀ m ∈ sent, m.Taken E.parser.parseUrl := fun m hm => (hclean m hm).taken hurl
  have hsplit : ∀ past ev, portions (past ++ [ev]) = portions past ++ ev.portion.toList := by
    intro past ev
    unfold portions
    rw [List.filterMap_append]
    cases hev : ev.portion <;> simp [hev]
  have hstep : ∀ past s ev t, (Carries E.parser sent (portions past) →
      Serving sent (portions past) s ∧ ParsedWhole s.log) → Disciplined s ev →
        step E s ev = some t → Carries E.parser sent (portions (past ++ [ev])) →
          Serving sent (portions (past ++ [ev])) t ∧ ParsedWhole t.log := by
    intro past s ev t hI hdisc hs hcar
    have hpast : Carries E.parser sent (portions past) :=
      hcar.of_prefix (by rw [hsplit]; exact List.prefix_append _ _)
    obtain ⟨hserving, hwhole⟩ := hI hpast
    refine ⟨serving_step hurl (fun _ => hserving) hdisc hs hcar, ?_⟩
    exact parsedWhole_step htaken hserving hwhole hs (hsplit past ev ▸ hcar)
  have hlast : Carries E.parser sent (portions ([] ++ es)) →
      Serving sent (portions ([] ++ es)) u ∧ ParsedWhole u.log :=
    history (I := fun past s => Carries E.parser sent (portions past) →
      Serving sent (portions past) s ∧ ParsedWhole s.log) hstep
      (fun _ => ⟨serving_start sent tag junk, parsedWhole_quiet
        (List.forall_mem_singleton.mpr trivial)⟩) hd h
  obtain ⟨hserving, hwhole⟩ := hlast hcarries
  refine ⟨hserving.tally.exact.mpr ⟨haligned, fun m hm => hclean m ?_⟩, hwhole⟩
  rw [← whole_append_rest Sent.size sent (portions es).flatten.length]
  exact List.mem_append_left _ hm

end CsiHttp.Server.HttpConnection
