import CsiHttp.Server.Session
import CsiHttp.Server.UrlAssembly

/-!
# A parser given by a table

It knows the callbacks for some whole buffers, each of them one or several complete
messages. Blank buffers it skips and on every other buffer it fails. It is documented,
and concrete runs are played with it.
-/
namespace CsiHttp.Server

open Lib.Text

theorem not_all_blank {buf : Bytes} (h : ∃ b ∈ buf, blank b = false) : ¬ buf.all blank = true := by
  obtain ⟨b, hmem, hb⟩ := h
  intro hall
  rw [List.all_eq_true.mp hall b hmem] at hb
  cases hb

def tableParser (table : List (Bytes × List MessagePieces)) : HttpParser where
  State := Unit
  init := ()
  execute _ buf :=
    if buf.all blank then ⟨[], fun _ => 0, some (), buf.length⟩
    else
      match table.lookup buf with
      | some (m :: ms) => ⟨(m :: ms).flatMap MessagePieces.calls, fun _ => 0, some (), buf.length⟩
      | _ => ⟨[], fun _ => 0, none, 0⟩
  parseUrl := readRooted

theorem tableParser_documented (table : List (Bytes × List MessagePieces)) :
    (tableParser table).Documented (fun _ => .idle) where
  init_idle := rfl
  ordered st buf := by
    refine ⟨.idle, ?_, fun _ _ => rfl⟩
    dsimp only [tableParser]
    split
    · rfl
    · split
      · exact follow_messages _
      · rfl
  short st buf := by
    dsimp only [tableParser]
    split
    · intro h
      cases h
    · rename_i hb
      split
      · intro h
        cases h
      · intro _ hlen
        rw [List.eq_nil_of_length_eq_zero hlen.symm] at hb
        exact hb rfl
  skips st buf _ hb := by
    dsimp only [tableParser]
    rw [if_pos (List.all_eq_true.mpr hb)]
    exact ⟨rfl, rfl, rfl⟩
  starts st buf _ hb := by
    dsimp only [tableParser]
    rw [if_neg (not_all_blank hb)]
    split
    · rename_i m ms _
      left
      rw [List.flatMap_cons]
      exact List.append_ne_nil_of_left_ne_nil m.calls_ne_nil _
    · exact Or.inr rfl

/-- The number the parser reports for a message without a content length. -/
def noContentLength : Nat := 2^64 - 1

/-- `GET` of a path, without headers, delivered in one piece. -/
def getPieces (path : Bytes) : MessagePieces := ⟨[path], [], 1, noContentLength, [], [], true⟩

/-- The bytes of that request. -/
def getBytes (path : Bytes) : Bytes := ascii "GET " ++ path ++ ascii " HTTP/1.1" ++ [13, 10, 13, 10]

/-- Uuids for runs in which they play no part. -/
def plainUuids : Uuids := ⟨fun _ => none, fun _ => ascii "id", fun _ => 1⟩

/-- A server whose clients send `GET / HTTP/1.1`. -/
def getServer : Externals := ⟨tableParser [(getBytes (ascii "/"), [getPieces (ascii "/")])], plainUuids⟩

end CsiHttp.Server
