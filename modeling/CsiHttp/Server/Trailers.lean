import CsiHttp.Server.MessageAssembly

/-!
# Trailers

The pair that is pending when the trailer section begins is the emptied one, and the last
trailer is pending when the message completes. So each trailer but the last is recorded, and
a section of headers is followed by an empty one.
-/
namespace CsiHttp.Server

open Lib Lib.Text

/-- A header without name and without value. -/
def blankHeader : Header := ⟨[], []⟩

theorem lowered_eq_blankHeader {h : Header} : h.lowered = blankHeader ↔ h = blankHeader := by
  cases h with
  | mk name value =>
    simp only [Header.lowered, blankHeader, Header.mk.injEq, lower_eq_nil]

theorem eq_of_mem_of_cons_dropLast_eq {α : Type} {a : α} {l : List α} (h : a :: l.dropLast = l) :
    ∀ b ∈ l, b = a := by
  induction l with
  | nil => exact List.forall_mem_nil _
  | cons c l ih =>
    obtain ⟨rfl, htail⟩ := List.cons.inj h
    refine List.forall_mem_cons.mpr ⟨rfl, ?_⟩
    by_cases hl : l = []
    · rw [hl]
      exact List.forall_mem_nil _
    · rw [List.dropLast_cons_of_ne_nil hl] at htail
      exact ih htail

/-- A list that is its own shift by one element is constant. -/
theorem cons_dropLast_eq_iff {α : Type} {a : α} {l : List α} (hl : l ≠ []) :
    a :: l.dropLast = l ↔ ∀ b ∈ l, b = a := by
  constructor
  · exact eq_of_mem_of_cons_dropLast_eq
  · intro h
    rw [List.eq_replicate_of_mem h, List.dropLast_replicate]
    cases hn : l.length with
    | zero => exact absurd (List.eq_nil_of_length_eq_zero hn) hl
    | succ n => rfl

namespace MessagePieces

/-- The fields of the message as they should be recorded. -/
def loweredFields (m : MessagePieces) : List Header :=
  (m.headers ++ m.trailers).map (fun p => p.header.lowered)

/-- Exactly the fields of the message are recorded if it has no trailers, or if all of them
are blank and take the place of the blank header. -/
theorem recordedHeaders_eq_iff {m : MessagePieces}
    (hz : ∀ p ∈ m.headers ++ m.trailers, p.header.NulFree) :
    m.recordedHeaders = m.loweredFields ↔
      m.trailers = [] ∨ (m.headers ≠ [] ∧ ∀ p ∈ m.trailers, p.header = blankHeader) := by
  obtain ⟨hzh, hzt⟩ := List.forall_mem_append.mp hz
  have hstored : ∀ l : List HeaderPieces, (∀ p ∈ l, p.header.NulFree) →
      l.map HeaderPieces.stored = l.map (fun p => p.header.lowered) :=
    fun l hl => List.map_congr_left (fun p hp => HeaderPieces.stored_of_nulFree (hl p hp))
  have hlast := hstored m.trailers.dropLast (fun p hp => hzt p (List.mem_of_mem_dropLast hp))
  unfold recordedHeaders loweredFields
  rw [hstored m.headers hzh, hlast, List.map_append]
  by_cases ht : m.trailers = []
  · rw [if_pos ht, ht, List.map_nil, List.append_nil]
    exact iff_of_true rfl (Or.inl rfl)
  · rw [if_neg ht, or_iff_right ht, List.append_assoc, List.append_right_inj]
    by_cases hh : m.headers = []
    · rw [if_pos hh, List.nil_append]
      refine iff_of_false (fun h => ?_) (fun h => h.1 hh)
      have hlen := congrArg List.length h
      rw [List.length_map, List.length_map, List.length_dropLast] at hlen
      have hpos := List.length_pos_iff.mpr ht
      omega
    · have hne : m.trailers.map (fun p => p.header.lowered) ≠ [] := by
        rwa [Ne, List.map_eq_nil_iff]
      rw [if_neg hh, List.map_dropLast, List.singleton_append]
      refine (cons_dropLast_eq_iff (a := blankHeader) hne).trans ?_
      rw [List.forall_mem_map, and_iff_right hh]
      exact forall₂_congr fun p _ => lowered_eq_blankHeader

end MessagePieces

namespace Connection

variable {State : Type} {parseUrl : Bytes → Option UrlFields}

/-- However the message is cut into callbacks, and whatever the connection held before. -/
theorem trailers_exact_iff (c : Connection State) {m : MessagePieces}
    (hu : Accepted parseUrl m.urls) (hd : m.Delivered)
    (hz : ∀ p ∈ m.headers ++ m.trailers, p.header.NulFree)
    (hl : ∀ p ∈ m.headers ++ m.trailers,
      p.header.name.length ≤ 4095 ∧ p.header.value.length ≤ 4095) :
    ∃ c', Delivers parseUrl c m.calls c' ∧ c'.requestComplete = true ∧
      (c'.request.headers = m.loweredFields ↔
        m.trailers = [] ∨ (m.headers ≠ [] ∧ ∀ p ∈ m.trailers, p.header = blankHeader)) := by
  have hf : m.Fits :=
    fun p hp => ⟨Nat.lt_succ_of_le (hl p hp).1, Nat.lt_succ_of_le (hl p hp).2⟩
  obtain ⟨c', h, hc⟩ := message_delivers c hu hd hf
  refine ⟨c', h, hc.complete, ?_⟩
  rw [hc.request]
  exact MessagePieces.recordedHeaders_eq_iff hz

/-- A chunked message with the header `Te: trailers` and the trailer `Sum: 1`. -/
def withTrailer : MessagePieces :=
  ⟨[ascii "/"], [⟨[ascii "Te"], [ascii "trailers"]⟩], 3, 2^64 - 1, [ascii "x"],
    [⟨[ascii "Su", ascii "m"], [ascii "1"]⟩], true⟩

theorem trailers_exact_iff_withTrailer :
    ∃ c', Delivers readRooted (Connection.new [] .zero ()) withTrailer.calls c' ∧
      c'.requestComplete = true ∧ (c'.request.headers = withTrailer.loweredFields ↔
        withTrailer.trailers = [] ∨
          (withTrailer.headers ≠ [] ∧ ∀ p ∈ withTrailer.trailers, p.header = blankHeader)) :=
  trailers_exact_iff _ (by decide) (by decide) (by decide) (by decide)

/-- The trailer is not recorded, and a blank header is. -/
theorem withTrailer_lost :
    ∃ c', Delivers readRooted (Connection.new [] .zero ()) withTrailer.calls c' ∧
      c'.request.headers = [⟨ascii "te", ascii "trailers"⟩, ⟨[], []⟩] ∧
      c'.request.headers ≠ withTrailer.loweredFields := by
  have haccepted : Accepted readRooted withTrailer.urls := by decide
  obtain ⟨c', h, hc⟩ := message_delivers (Connection.new [] .zero ()) (m := withTrailer) haccepted
    (by decide) (by decide)
  refine ⟨c', h, ?_, ?_⟩
  · rw [hc.request]
    rfl
  · rw [hc.request]
    decide

end Connection

end CsiHttp.Server
