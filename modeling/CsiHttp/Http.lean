import CsiHttp.Lib.Text

/-!
# The shared vocabulary: `csi_http.h` and `header.h`

Status codes and method names are the tables of the source. A method arrives as the
number the parser assigned, because the code casts it without a check.
-/
namespace CsiHttp

open Lib.Text

/-- `header_t`. -/
structure Header where
  name : Bytes
  value : Bytes
  deriving DecidableEq, Repr

/-- A header with both parts in lower case, the form in which requests store it. -/
def Header.lowered (h : Header) : Header := ⟨lower h.name, lower h.value⟩

def Header.NulFree (h : Header) : Prop := (0 : UInt8) ∉ h.name ∧ (0 : UInt8) ∉ h.value

instance (h : Header) : Decidable h.NulFree := inferInstanceAs (Decidable (_ ∧ _))

/-- `status_type`. -/
inductive StatusType where
  | undefined
  | continueWithRequest | switchingProtocols | processing | checkpoint | uriToLong
  | ok | created | accepted | processedNonAuthorative | noContent | resetContent
  | partialContent | multiStatus | alreadyReported | imUsed
  | multipleChoices | movedPermanently | movedTemporarily | seeOther | notModified | useProxy
  | switchProxy | temporaryRedirect | resumeIncomplete
  | badRequest | unauthorized | forbidden | notFound | preconditionFailed
  | internalServerError | notImplemented | badGateway | serviceUnavailable
  deriving DecidableEq, Repr

def StatusType.code : StatusType → Nat
  | .undefined => 0
  | .continueWithRequest => 100
  | .switchingProtocols => 101
  | .processing => 102
  | .checkpoint => 103
  | .uriToLong => 122
  | .ok => 200
  | .created => 201
  | .accepted => 202
  | .processedNonAuthorative => 203
  | .noContent => 204
  | .resetContent => 205
  | .partialContent => 206
  | .multiStatus => 207
  | .alreadyReported => 208
  | .imUsed => 226
  | .multipleChoices => 300
  | .movedPermanently => 301
  | .movedTemporarily => 302
  | .seeOther => 303
  | .notModified => 304
  | .useProxy => 305
  | .switchProxy => 306
  | .temporaryRedirect => 307
  | .resumeIncomplete => 308
  | .badRequest => 400
  | .unauthorized => 401
  | .forbidden => 403
  | .notFound => 404
  | .preconditionFailed => 412
  | .internalServerError => 500
  | .notImplemented => 501
  | .badGateway => 502
  | .serviceUnavailable => 503

/-- `method_strings`, indexed by `method_t`. -/
def methodStrings : List Bytes :=
  [ascii "DELETE", ascii "GET", ascii "HEAD", ascii "POST", ascii "PUT", ascii "CONNECT",
    ascii "OPTIONS", ascii "TRACE", ascii "COPY", ascii "LOCK", ascii "MKCOL", ascii "MOVE",
    ascii "PROPFIND", ascii "PROPPATCH", ascii "SEARCH", ascii "UNLOCK", ascii "REPORT",
    ascii "MKACTIVITY", ascii "CHECKOUT", ascii "MERGE", ascii "MSEARCH", ascii "NOTIFY",
    ascii "SUBSCRIBE", ascii "UNSUBSCRIBE", ascii "PATCH", ascii "PURGE"]

/-- `to_string(method_t)`; `none` where the source reads a value never assigned or
indexes past the table. -/
def methodToString (method : Option Nat) : Option Bytes :=
  method.bind (fun m => methodStrings[m]?)

/-- What ends a run of the program outright. -/
inductive Fault where
  /-- `_avro_tx_buffer` is dereferenced while it is null. -/
  | nullReplyBuffer
  /-- A write leaves `_current_header_key` or `_current_header_val`. -/
  | headerOverflow
  deriving DecidableEq, Repr

end CsiHttp
