import Mathlib.Data.List.DropRight
import CsiHttp.Lib.Text

/-!
# Messages with a head of lines and a counted body

A message is a status line, header lines up to an empty line, and as many bytes of body as
its one field `Content-Length` says. `readMessages` splits a stream into such messages, and
reading inverts writing whatever follows on the stream.
-/
namespace CsiHttp.Lib.Wire

open Text

def crlf : Bytes := [13, 10]

structure Field where
  name : Bytes
  value : Bytes
  deriving DecidableEq, Repr

structure Message where
  status : Nat
  fields : List Field
  body : Bytes
  deriving DecidableEq, Repr

/-! ## Reading -/

/-- The bytes up to the first CR LF, and what follows it. -/
def readLine : Bytes → Option (Bytes × Bytes)
  | [] => none
  | b :: bs =>
    if b = 13 ∧ bs.head? = some 10 then some ([], bs.tail)
    else (readLine bs).map (fun p => (b :: p.1, p.2))

def digitValue (b : UInt8) : Nat := b.toNat - 48

def isDigit (b : UInt8) : Bool := decide (48 ≤ b.toNat) && decide (b.toNat ≤ 57)

def readDecimal (bs : Bytes) : Option Nat :=
  if bs ≠ [] ∧ bs.all isDigit = true then
    some (bs.foldl (fun n b => 10 * n + digitValue b) 0)
  else none

def blank (b : UInt8) : Bool := b == 32 || b == 9

def trim (bs : Bytes) : Bytes := (bs.dropWhile blank).rdropWhile blank

def splitColon : Bytes → Option (Bytes × Bytes)
  | [] => none
  | b :: bs => if b = 58 then some ([], bs) else (splitColon bs).map (fun p => (b :: p.1, p.2))

def readField (line : Bytes) : Option Field :=
  (splitColon line).bind (fun p => if p.1 = [] then none else some ⟨p.1, trim p.2⟩)

/-- Header lines up to the empty line; `n` bounds their number. -/
def readFields : Nat → Bytes → Option (List Field × Bytes)
  | 0, _ => none
  | n + 1, bs =>
    (readLine bs).bind (fun p =>
      if p.1 = [] then some ([], p.2)
      else (readField p.1).bind (fun f => (readFields n p.2).map (fun q => (f :: q.1, q.2))))

def version : Bytes := ascii "HTTP/1.1 "

/-- `HTTP/1.1`, a blank, three digits, and a blank with a reason. -/
def readStatus (line : Bytes) : Option Nat :=
  if version.isPrefixOf line && (line.drop 12).head? == some 32 then
    readDecimal ((line.drop 9).take 3)
  else none

/-- The statuses whose messages have no body, whatever their fields say. -/
def bodiless (status : Nat) : Bool := status / 100 == 1 || status == 204 || status == 304

def isLength (f : Field) : Bool := iequals (ascii "Content-Length") f.name

def isEncoding (f : Field) : Bool := iequals (ascii "Transfer-Encoding") f.name

/-- The length the fields announce; any other framing than one decimal `Content-Length` is
refused. -/
def bodyLength (status : Nat) (fields : List Field) : Option Nat :=
  if bodiless status = true then some 0
  else if fields.any isEncoding = true then none
  else
    match fields.filter isLength with
    | [f] => readDecimal f.value
    | _ => none

def readMessage (bs : Bytes) : Option (Message × Bytes) :=
  (readLine bs).bind (fun p =>
    (readStatus p.1).bind (fun status =>
      (readFields p.2.length p.2).bind (fun q =>
        (bodyLength status q.1).bind (fun n =>
          if n ≤ q.2.length then some (⟨status, q.1, q.2.take n⟩, q.2.drop n) else none))))

/-- Split a whole stream; `n` bounds the number of messages. -/
def readMessagesUpTo : Nat → Bytes → Option (List Message)
  | _, [] => some []
  | 0, _ :: _ => none
  | n + 1, b :: bs =>
    (readMessage (b :: bs)).bind (fun p => (readMessagesUpTo n p.2).map (fun ms => p.1 :: ms))

def readMessages (bs : Bytes) : Option (List Message) := readMessagesUpTo bs.length bs

/-! ## Writing -/

def Field.line (f : Field) : Bytes := f.name ++ [58, 32] ++ f.value

def Field.write (f : Field) : Bytes := f.line ++ crlf

/-- A field that is read as it is written. -/
structure Field.Plain (f : Field) : Prop where
  name_ne : f.name ≠ []
  no_colon : (58 : UInt8) ∉ f.name
  name_no_cr : (13 : UInt8) ∉ f.name
  value_no_cr : (13 : UInt8) ∉ f.value
  unpadded : trim f.value = f.value

def Message.write (m : Message) (statusLine : Bytes) : Bytes :=
  statusLine ++ crlf ++ m.fields.flatMap Field.write ++ crlf ++ m.body

/-! ## Reading what was written -/

theorem foldl_digits {cs : List Char} (h : ∀ c ∈ cs, c.isDigit = true) (n : Nat) :
    (cs.map (fun c => c.toNat.toUInt8)).foldl (fun n b => 10 * n + digitValue b) n =
      Nat.ofDigitChars 10 cs n := by
  induction cs generalizing n with
  | nil => rfl
  | cons c cs ih =>
    obtain ⟨hc, hcs⟩ := List.forall_mem_cons.mp h
    rw [List.map_cons, List.foldl_cons, ih hcs, Nat.ofDigitChars_cons, digitValue,
      (toNat_byte_of_isDigit hc).1]
    rfl

theorem readDecimal_decimal (n : Nat) : readDecimal (decimal n) = some n := by
  have hall : (decimal n).all isDigit = true := by
    rw [List.all_eq_true]
    intro b hb
    obtain ⟨hlo, hhi⟩ := mem_decimal hb
    simp [isDigit, hlo, hhi]
  rw [readDecimal, if_pos ⟨decimal_ne_nil n, hall⟩, decimal_natCast,
    foldl_digits (fun c hc => Nat.isDigit_of_mem_toDigits (by decide) (by decide) hc),
    Nat.ofDigitChars_ten_toDigits]

/-- A negative number is not written in digits alone. -/
theorem readDecimal_negSucc (m : Nat) : readDecimal (decimal (Int.negSucc m)) = none := by
  have hrepr : toString (Int.negSucc m) = "-" ++ toString (m + 1) := rfl
  have hminus : decimal (Int.negSucc m) = 45 :: ascii (toString (m + 1)) := by
    rw [decimal, ascii, hrepr, String.toList_append, List.map_append]
    rfl
  rw [hminus, readDecimal, if_neg]
  intro h
  rw [List.all_cons] at h
  exact Bool.noConfusion h.2

/-- The decimal form of a size after its conversion to `int` gives the size back exactly as
long as an `int` can hold it. -/
theorem readDecimal_toInt32 (n : Nat) :
    readDecimal (decimal (toInt32 n)) = some n ↔ n < 2147483648 := by
  constructor
  · intro h
    have hlt : toInt32 n < 2147483648 := BitVec.toInt_lt
    cases hi : toInt32 n with
    | ofNat m =>
      rw [hi] at h hlt
      have hm : readDecimal (decimal m) = some n := h
      rw [readDecimal_decimal] at hm
      rw [← Option.some.inj hm]
      exact Int.ofNat_lt.mp hlt
    | negSucc m =>
      rw [hi, readDecimal_negSucc] at h
      cases h
  · intro h
    rw [toInt32_of_lt h, readDecimal_decimal]

theorem trim_of_no_blank {bs : Bytes} (h : ∀ b ∈ bs, blank b = false) : trim bs = bs := by
  have hdrop : bs.dropWhile blank = bs := by
    cases bs with
    | nil => rfl
    | cons b bs => simp [h b List.mem_cons_self]
  rw [trim, hdrop, List.rdropWhile_eq_self_iff]
  intro hne hlast
  rw [h _ (List.getLast_mem hne)] at hlast
  exact Bool.false_ne_true hlast

theorem readLine_append {l : Bytes} (hl : (13 : UInt8) ∉ l) (rest : Bytes) :
    readLine (l ++ (crlf ++ rest)) = some (l, rest) := by
  induction l with
  | nil => rfl
  | cons b l ih =>
    obtain ⟨hb, hl⟩ := List.ne_and_not_mem_of_not_mem_cons hl
    rw [List.cons_append, readLine, if_neg (fun h => hb h.1.symm), ih hl]
    rfl

theorem splitColon_append {name : Bytes} (hname : (58 : UInt8) ∉ name) (rest : Bytes) :
    splitColon (name ++ 58 :: rest) = some (name, rest) := by
  induction name with
  | nil => rfl
  | cons b name ih =>
    obtain ⟨hb, hname⟩ := List.ne_and_not_mem_of_not_mem_cons hname
    rw [List.cons_append, splitColon, if_neg (Ne.symm hb), ih hname]
    rfl

theorem trim_blank (bs : Bytes) : trim (32 :: bs) = trim bs := rfl

theorem readField_line {f : Field} (hf : f.Plain) : readField f.line = some f := by
  have hline : f.line = f.name ++ 58 :: (32 :: f.value) := by simp [Field.line]
  rw [readField, hline, splitColon_append hf.no_colon, Option.bind_some, if_neg hf.name_ne,
    trim_blank, hf.unpadded]

theorem Field.Plain.line_no_cr {f : Field} (hf : f.Plain) : (13 : UInt8) ∉ f.line := by
  simp [Field.line, hf.name_no_cr, hf.value_no_cr]

theorem Field.line_ne (f : Field) : f.line ≠ [] := by
  simp [Field.line]

theorem readFields_append {fields : List Field} (hf : ∀ f ∈ fields, f.Plain) (rest : Bytes) {n : Nat}
    (hn : fields.length < n) :
    readFields n (fields.flatMap Field.write ++ (crlf ++ rest)) = some (fields, rest) := by
  induction fields generalizing n with
  | nil =>
    obtain ⟨n, rfl⟩ := Nat.exists_eq_succ_of_ne_zero (show n ≠ 0 by omega)
    rfl
  | cons f fields ih =>
    obtain ⟨hplain, hf⟩ := List.forall_mem_cons.mp hf
    obtain ⟨n, rfl⟩ := Nat.exists_eq_succ_of_ne_zero (show n ≠ 0 by omega)
    have hlen : fields.length < n := by
      rw [List.length_cons] at hn
      omega
    have hbytes : (f :: fields).flatMap Field.write ++ (crlf ++ rest) =
        f.line ++ (crlf ++ (fields.flatMap Field.write ++ (crlf ++ rest))) := by
      simp [Field.write, List.append_assoc]
    rw [hbytes, readFields, readLine_append hplain.line_no_cr, Option.bind_some,
      if_neg f.line_ne, readField_line hplain, Option.bind_some, ih hf hlen]
    rfl

theorem length_le_flatMap_write {fields : List Field} :
    fields.length ≤ (fields.flatMap Field.write).length := by
  induction fields with
  | nil => exact Nat.le_refl 0
  | cons f fields ih =>
    simp only [List.flatMap_cons, List.length_append, List.length_cons, Field.write, crlf]
    omega

/-- A message with a status line that can be read back. -/
structure Message.Written (m : Message) (statusLine : Bytes) : Prop where
  no_cr : (13 : UInt8) ∉ statusLine
  status : readStatus statusLine = some m.status
  plain : ∀ f ∈ m.fields, f.Plain
  length : bodyLength m.status m.fields = some m.body.length

/-- A message is read back whatever follows it on the stream. -/
theorem readMessage_write {m : Message} {statusLine : Bytes} (h : m.Written statusLine)
    (rest : Bytes) : readMessage (m.write statusLine ++ rest) = some (m, rest) := by
  have hbytes : m.write statusLine ++ rest = statusLine ++ (crlf ++
      (m.fields.flatMap Field.write ++ (crlf ++ (m.body ++ rest)))) := by
    simp [Message.write, List.append_assoc]
  have hcount : m.fields.length <
      (m.fields.flatMap Field.write ++ (crlf ++ (m.body ++ rest))).length := by
    have hle : m.fields.length ≤ (m.fields.flatMap Field.write).length := length_le_flatMap_write
    simp only [List.length_append, crlf, List.length_cons]
    omega
  rw [hbytes, readMessage, readLine_append h.no_cr, Option.bind_some, h.status, Option.bind_some,
    readFields_append h.plain _ hcount, Option.bind_some, h.length, Option.bind_some,
    if_pos (by simp), List.take_left, List.drop_left]

theorem readMessagesUpTo_of_ne {bs : Bytes} (h : bs ≠ []) (n : Nat) :
    readMessagesUpTo (n + 1) bs =
      (readMessage bs).bind (fun p => (readMessagesUpTo n p.2).map (fun ms => p.1 :: ms)) := by
  cases bs with
  | nil => exact absurd rfl h
  | cons b bs => rfl

theorem Message.write_ne (m : Message) (statusLine : Bytes) : m.write statusLine ≠ [] := by
  simp [Message.write, crlf]

theorem readMessagesUpTo_write {ms : List (Message × Bytes)} (hms : ∀ p ∈ ms, p.1.Written p.2)
    {n : Nat} (hn : ms.length ≤ n) :
    readMessagesUpTo n (ms.flatMap (fun p => p.1.write p.2)) = some (ms.map Prod.fst) := by
  induction ms generalizing n with
  | nil =>
    cases n with
    | zero => rfl
    | succ n => rfl
  | cons p ms ih =>
    obtain ⟨hp, hms⟩ := List.forall_mem_cons.mp hms
    rw [List.length_cons] at hn
    obtain ⟨n, rfl⟩ := Nat.exists_eq_succ_of_ne_zero (show n ≠ 0 by omega)
    rw [List.flatMap_cons, readMessagesUpTo_of_ne (List.append_ne_nil_of_left_ne_nil (p.1.write_ne p.2) _),
      readMessage_write hp, Option.bind_some, ih hms (by omega)]
    rfl

theorem length_le_flatMap_messages (ms : List (Message × Bytes)) :
    ms.length ≤ (ms.flatMap (fun p => p.1.write p.2)).length := by
  induction ms with
  | nil => exact Nat.le_refl 0
  | cons p ms ih =>
    have hpos := List.length_pos_iff.mpr (p.1.write_ne p.2)
    rw [List.flatMap_cons, List.length_append, List.length_cons]
    omega

/-- A stream of messages is split into exactly these messages. -/
theorem readMessages_write {ms : List (Message × Bytes)} (hms : ∀ p ∈ ms, p.1.Written p.2) :
    readMessages (ms.flatMap (fun p => p.1.write p.2)) = some (ms.map Prod.fst) :=
  readMessagesUpTo_write hms (length_le_flatMap_messages ms)

end CsiHttp.Lib.Wire
