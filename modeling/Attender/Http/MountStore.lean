import Attender.Http.MountHandlers
import Attender.Http.ResponseReading
import Attender.Library.Maps

/-!
# A mount as a store

Requests that are served by a mount one after another, each with the reads that
bring its body. What a request is answered, and what it leaves in its file, is
said by `MountRequest.answer` and `MountRequest.written` from the request and
from what the file has held. Over any run a file holds what the last request
that has written it left there (`mount_last_write`).

A request comes after the connection of the one before has been removed, which
closes the `std::ofstream` of an upload. That of an upload which is not answered
is never closed, and it may have written any front of what has arrived.
-/

namespace Attender.Http

open Attender.Library Attender.Session Attender.Utility

/-! ### Answers -/

/-- What follows the header. -/
def HeaderContinuation.content : HeaderContinuation → Bytes
  | .body b => b.content
  | .remove | .chunked => []

/-- The code that `send` makes of a code, for what it sends. -/
def sentCode (code : Int) (content : Bytes) : Int :=
  if code = 204 ∧ content ≠ [] then 200
  else if code = 200 ∧ content = [] then 204
  else code

theorem ResponseHandler.code_prepared (r : ResponseHandler) (body : Body) :
    (r.prepared body).header.code = sentCode r.header.code body.content := by
  obtain ⟨-, hcode, -⟩ := trySet_kept (r := r) (bytes "Content-Length")
    (bytes (ToString.toString body.content.length))
  obtain ⟨-, hcode', -⟩ := trySet_kept
    (r := r.trySet (bytes "Content-Length") (bytes (ToString.toString body.content.length)))
    (bytes "Content-Type") body.contentType
  have htyped : (r.typed body).header.code = r.header.code := hcode'.trans hcode
  simp only [prepared, sentCode, htyped, ne_eq, List.length_eq_zero_iff]
  split_ifs
  · rfl
  · rfl
  · exact htyped

namespace Call

variable {σ : Type} {call : Call σ} {r : ResponseHandler}

/-- The code and the content of the one response that has been written. -/
def answer (call : Call σ) : Option (Int × Bytes) :=
  match call.effects with
  | [.write header k] => some (header.code, k.content)
  | _ => none

/-- A call that nothing has been done with so far. -/
structure Blank (call : Call σ) : Prop where
  effects : call.effects = []
  unanswered : call.response.hasConcluded = false
  code : call.response.header.code = 204

theorem Blank.headerSent (h : call.Blank) : call.response.headerSent = false := by
  have hconcluded := h.unanswered
  rw [ResponseHandler.hasConcluded, Bool.or_eq_false_iff] at hconcluded
  exact hconcluded.2

theorem Blank.answer_none (h : call.Blank) : call.answer = none := by
  rw [answer, h.effects]

/-- The first header that is sent is the answer. -/
theorem answer_sendHeader (h : call.effects = []) (hsent : r.headerSent = false)
    (k : HeaderContinuation) :
    (call.respond (r.sendHeader k)).answer = some (r.header.code, k.content) := by
  have hopen : r.conclude.headerSent = false := hsent
  rw [answer, respond, h, ResponseHandler.sendHeader, if_pos hopen]
  rfl

theorem answer_send (h : call.effects = []) (hsent : r.headerSent = false) (body : Body) :
    (call.respond (r.send body)).answer =
      some (sentCode r.header.code body.content, body.content) := by
  rw [ResponseHandler.send_eq_prepared,
    answer_sendHeader h (ResponseHandler.prepared_kept.2.2.1.trans hsent),
    ResponseHandler.code_prepared]
  rfl

theorem answer_end (h : call.effects = []) (hsent : r.headerSent = false) :
    (call.respond r.end_).answer = some (r.header.code, []) :=
  answer_sendHeader (r := r.conclude) h hsent .remove

/-- `send_status` of a code that is not about its own content. -/
theorem answer_sendStatus (h : call.effects = []) (hsent : r.headerSent = false) {code : Int}
    (hcode : code ≠ 204) (hok : code = 200 → translateCode code ≠ []) :
    (call.respond (r.sendStatus code)).answer = some (code, translateCode code) := by
  have hsent' : (r.status code).headerSent = false := hsent
  rw [ResponseHandler.sendStatus, if_pos hcode, answer_send h hsent']
  change some (sentCode code (translateCode code), translateCode code) = _
  rw [sentCode, if_neg fun hnone => hcode hnone.1, if_neg fun hempty => hok hempty.1 hempty.2]

end Call

/-! ### The callback -/

/-- The operations that add to a response or use the sessions. -/
def UserOp.adds {σ : Type} : UserOp σ → Bool
  | .response (.set _ _) | .response (.append _ _) | .response (.setCookie _)
  | .response .observeConclusion => true
  | .response _ => false
  | .patchCookie _ _ | .session _ => true

/-- A callback that decides, and otherwise adds fields and cookies at most. -/
structure Discreet {σ : Type} (user : UserRun σ Bool) : Prop where
  result : ∃ accepted, user.result = .ok accepted
  adds : ∀ op ∈ user.ops, op.adds

theorem Call.Blank.apply {σ : Type} {p : StorageParams σ} {call : Call σ} (h : call.Blank)
    {op : UserOp σ} (hadds : op.adds) : (call.apply p op).Blank := by
  cases op with
  | patchCookie key value => exact ⟨h.effects, h.unanswered, h.code⟩
  | session op => exact ⟨h.effects, h.unanswered, h.code⟩
  | response op =>
    have hunanswered : (call.response.apply op).1.hasConcluded = op.concludes := by
      rw [ResponseHandler.hasConcluded_apply, h.unanswered, Bool.false_or]
    cases op with
    | set field value =>
      exact ⟨(List.append_nil _).trans h.effects, hunanswered, h.code⟩
    | append field value =>
      exact ⟨(List.append_nil _).trans h.effects, hunanswered, h.code⟩
    | setCookie cookie =>
      exact ⟨(List.append_nil _).trans h.effects, hunanswered, h.code⟩
    | observeConclusion =>
      exact ⟨(List.append_nil _).trans h.effects, hunanswered, h.code⟩
    | status code => cases hadds
    | send body => cases hadds
    | sendStatus code => cases hadds
    | sendChunked encoding => cases hadds
    | end_ => cases hadds

/-- Such operations leave a call as good as new. -/
theorem Call.Blank.run {σ ρ : Type} {p : StorageParams σ} {call : Call σ} (h : call.Blank)
    {code : UserRun σ ρ} (hadds : ∀ op ∈ code.ops, op.adds) : (call.run p code).1.Blank := by
  obtain ⟨ops, result⟩ := code
  change (ops.foldl (Call.apply p) call).Blank
  induction ops generalizing call with
  | nil => exact h
  | cons op ops ih =>
    rw [List.forall_mem_cons] at hadds
    refine ih (h.apply hadds.1) hadds.2

/-! ### The reads of an upload -/

/-- What reads bring before one of them fails. -/
def brought : List (Option ErrorCode × Bytes) → Bytes
  | (none, amount) :: reads => amount ++ brought reads
  | (some _, _) :: _ | [] => []

/-- The error of the first read that fails. -/
def broken : List (Option ErrorCode × Bytes) → Option ErrorCode
  | (none, _) :: reads => broken reads
  | (some ec, _) :: _ => some ec
  | [] => none

namespace MountRun

variable {ι σ ν : Type} [DecidableEq ν] {call : Call σ} {files : FileSystem ν} {k : Upload}
  {path received : Bytes} {n : Nat} {s : MountRun σ ν}

/-- An upload is answered when all of it has come, or when a read fails. -/
def uploadAnswer (n : Nat) (arrived : Bytes) (failure : Option ErrorCode) : Option (Int × Bytes) :=
  if arrived.length = n then some (204, [])
  else failure.bind fun ec => if ec = .operationAborted then none else some (204, [])

/-- Both continuations answer with the code 204. -/
theorem answer_upload (h : call.Blank) (k : Upload) :
    (call.respond (k.answer call.response)).answer = some (204, []) := by
  have hsent : (call.response.status 204).headerSent = false := h.headerSent
  rw [k.answer_eq, Call.answer_end h.effects hsent]
  rfl

/-- **The reads of an upload** that brings no more than it has announced. -/
theorem Uploading.reads (h : Uploading call files k path received s) (hcall : call.Blank)
    (hlength : contentLength call.request = some n) (hsmall : n < 2 ^ 63)
    (reads : List (Option ErrorCode × Bytes)) (hshort : received.length ≠ n)
    (hfits : (received ++ brought reads).length ≤ n) :
    (reads.foldl MountRun.deliver s).files = files.put path (received ++ brought reads) ∧
      (reads.foldl MountRun.deliver s).call.answer =
        uploadAnswer n (received ++ brought reads) (broken reads) := by
  induction reads generalizing s received with
  | nil =>
    rw [List.foldl_nil, brought, List.append_nil, h.files, h.call, uploadAnswer, if_neg hshort,
      hcall.answer_none]
    exact ⟨rfl, rfl⟩
  | cons read reads ih =>
    obtain ⟨ec, amount⟩ := read
    rw [List.foldl_cons]
    cases ec with
    | some ec =>
      have hfail := h.fail ec amount
      rw [foldl_deliver hfail.reading, hfail.files, hfail.call, brought, List.append_nil,
        uploadAnswer, if_neg hshort]
      refine ⟨rfl, ?_⟩
      rw [broken, Option.bind_some]
      by_cases haborted : ec = .operationAborted
      · rw [if_neg (not_not.mpr haborted), if_pos haborted, hcall.answer_none]
      · rw [if_pos haborted, if_neg haborted, Call.answer_end hcall.effects hcall.headerSent,
          hcall.code]
    | none =>
      rw [brought, ← List.append_assoc] at hfits ⊢
      have hmore : (received ++ amount).length ≤ n := by
        rw [List.length_append] at hfits
        omega
      have hread := h.deliver hlength (lt_of_le_of_lt hmore hsmall)
      rw [toInt64_of_lt hsmall] at hread
      split_ifs at hread with hall
      · -- the read that completes the body
        have heq : (received ++ amount).length = n := le_antisymm hmore (Int.ofNat_le.mp hall)
        have hnil : brought reads = [] := by
          rw [List.length_append, heq] at hfits
          exact List.length_eq_zero_iff.mp (by omega)
        rw [foldl_deliver hread.reading, hread.files, hread.call, hnil, List.append_nil,
          uploadAnswer, if_pos heq]
        exact ⟨rfl, answer_upload hcall k⟩
      · exact ih hread (fun heq => hall (Int.ofNat_le.mpr heq.ge)) hfits

/-! ### What is left in the files -/

/-- The contents of the files when no read is to come. An upload that is not answered still has its
`std::ofstream`, which has written this many bytes to the file. -/
def contentsLeft (flushed : Nat) (s : MountRun σ ν) : ν → Option Bytes :=
  match s.writer with
  | some path =>
    if s.call.answer = none then
      let place := s.files.place path
      Function.update s.files.contents place ((s.files.contents place).map (List.take flushed))
    else s.files.contents
  | none => s.files.contents

theorem contentsLeft_of_writer (hwriter : s.writer = some path) (hfiles : s.files =
    files.put path received) (flushed : Nat) :
    s.contentsLeft flushed = Function.update files.contents (files.place path)
      (some (if s.call.answer = none then received.take flushed else received)) := by
  rw [contentsLeft, hwriter, hfiles]
  dsimp only [FileSystem.put]
  rw [Function.update_self, Function.update_idem]
  split_ifs
  · rfl
  · rfl

theorem writer_perform (s : MountRun σ ν) (outcome : RequestHandler.Outcome Upload Unit) :
    (s.perform outcome).writer = s.writer := by
  have hreact : ∀ (s : MountRun σ ν) effect, (s.react effect).writer = s.writer := by
    intro s effect
    rcases effect with - | (k | _) | code | - <;> rfl
  have hfold : ∀ (effects : List (RequestEffect Upload Unit)) (s : MountRun σ ν),
      (effects.foldl react s).writer = s.writer := by
    intro effects
    induction effects with
    | nil => exact fun _ => rfl
    | cons effect effects ih => exact fun s => (ih (s.react effect)).trans (hreact s effect)
  exact hfold _ _

/-- The file of an upload stays open over its reads. -/
theorem writer_foldl_deliver (reads : List (Option ErrorCode × Bytes)) (s : MountRun σ ν) :
    (reads.foldl deliver s).writer = s.writer := by
  induction reads generalizing s with
  | nil => rfl
  | cons c reads ih =>
    rw [List.foldl_cons, ih, deliver]
    split_ifs
    · exact writer_perform _ _
    · rfl

theorem writer_upload (hopen : files.openable path) (parser : RequestParser) (k : Upload) :
    ((routed call parser files).upload k path).writer = some path := by
  rw [upload_eq hopen, setExcept, writer_perform, setThen, writer_perform, writer_perform]
  rfl

/-- **An upload** that brings no more than it has announced. -/
theorem upload_reads (hopen : files.openable path) (hcall : call.Blank)
    (hlength : contentLength call.request = some n) (hsmall : n < 2 ^ 63) (parser : RequestParser)
    (reads : List (Option ErrorCode × Bytes))
    (hfits : (parser.headerBuffer ++ brought reads).length ≤ n) (k : Upload) :
    (reads.foldl deliver ((routed call parser files).upload k path)).files =
        files.put path (parser.headerBuffer ++ brought reads) ∧
      (reads.foldl deliver ((routed call parser files).upload k path)).call.answer =
        uploadAnswer n (parser.headerBuffer ++ brought reads) (broken reads) := by
  have hleft : parser.headerBuffer.length ≤ n := by
    rw [List.length_append] at hfits
    omega
  have hupload := upload_of_some (k := k) hopen hlength (lt_of_le_of_lt hleft hsmall)
  have hthere : ThereAtOnce n parser.headerBuffer ↔ parser.headerBuffer.length = n := by
    rw [ThereAtOnce, toInt64_of_lt hsmall]
    split_ifs with hempty
    · rw [hempty, List.length_nil]
      omega
    · exact eq_comm
  split_ifs at hupload with hall
  · have heq := hthere.mp hall
    have hnil : brought reads = [] := by
      rw [List.length_append, heq] at hfits
      exact List.length_eq_zero_iff.mp (by omega)
    rw [foldl_deliver hupload.reading, hupload.files, hupload.call, hnil, List.append_nil,
      answer_upload hcall k]
    exact ⟨rfl, (if_pos heq).symm⟩
  · exact hupload.reads hcall hlength hsmall reads (fun heq => hall (hthere.mpr heq)) hfits

end MountRun

/-! ### Requests one after another -/

/-- Files that a mount is given, as the handlers of the requests find them. -/
structure Volume (ν : Type) [DecidableEq ν] where
  /-- The file system while the files hold this. -/
  files : (ν → Option Bytes) → FileSystem ν
  /-- Where a path leads. -/
  place : Bytes → ν
  /-- The file of a path may be written. -/
  openable : Bytes → Bool
  /-- A path leads to a file, or to where a file may be, and not to a directory. -/
  Regular : Bytes → Prop
  contents_files : ∀ contents, (files contents).contents = contents
  place_files : ∀ contents, (files contents).place = place
  endOf_files : ∀ contents {path}, Regular path →
    (files contents).endOf path = (contents (place path)).map fun data => (data.length : Int)
  openable_files : ∀ contents {path}, Regular path →
    (files contents).openable path = openable path
  removeAll_files : ∀ contents {path}, Regular path →
    (files contents).removeAll path = (Function.update contents (place path) none, none)

/-- A request whose route is one of a mount, with the reads of its connection. -/
structure MountRequest (σ : Type) where
  option : MountOption
  call : Call σ
  parser : RequestParser
  reads : List (Option ErrorCode × Bytes)
  /-- How much of an upload that is not answered is written to its file. -/
  flushed : Nat := 0

namespace MountRequest

variable {ι σ ν : Type} [DecidableEq ν] (server : HttpBasicServer ι σ) (mount : Mount σ)
  (mime : Bytes → Bytes) (v : Volume ν)

/-- The path of its file. -/
def file (q : MountRequest σ) : Bytes :=
  mountedPath mount.rootPath mount.pathTemplate q.call.request.path

/-- What arrives of its body. -/
def arrived (q : MountRequest σ) : Bytes := q.parser.headerBuffer ++ brought q.reads

/-- The request is handled, and its reads complete. -/
def serve (contents : ν → Option Bytes) (q : MountRequest σ) : MountRun σ ν :=
  q.reads.foldl MountRun.deliver
    ((MountRun.routed q.call q.parser (v.files contents)).handle server mount mime q.option)

/-- What the files hold after some requests. -/
def contentsAfter (contents : ν → Option Bytes) (qs : List (MountRequest σ)) : ν → Option Bytes :=
  qs.foldl (fun contents q => (q.serve server mount mime v contents).contentsLeft q.flushed)
    contents

/-- What the callback says of the request. -/
def accepted (q : MountRequest σ) : Bool :=
  match (MountRun.asked mount q.call).result with
  | .ok accepted => accepted
  | .error _ => false

/-- The request has come to the handler as it was read, the callback only decides about it, its path
leads to no directory, and its body is not longer than it says. -/
structure Proper (q : MountRequest σ) : Prop where
  blank : q.call.Blank
  callback : Discreet (MountRun.asked mount q.call)
  regular : v.Regular (q.file mount)
  fits : q.option = .PUT ∨ q.option = .POST → ∀ n, contentLength q.call.request = some n →
    n < 2 ^ 63 ∧ q.arrived.length ≤ n

/-- What an upload is answered with that has announced `n` bytes. -/
def uploadAnswer (q : MountRequest σ) (n : Nat) : Option (Int × Bytes) :=
  MountRun.uploadAnswer n q.arrived (broken q.reads)

/-- What an upload leaves in its file: without a length nothing is read, and the file has been
opened already. -/
def uploadWritten (q : MountRequest σ) : Bytes :=
  match contentLength q.call.request with
  | none => []
  | some n => if q.uploadAnswer n = none then q.arrived.take q.flushed else q.arrived

/-- What it leaves in its file, if it is accepted with a valid path and writes it; `none` is no
file. -/
def accessWritten (q : MountRequest σ) : Option (Option Bytes) :=
  match q.option with
  | .PUT | .POST => if ¬ v.openable (q.file mount) then none else some (some q.uploadWritten)
  | .DELETE => some none
  | .GET | .HEAD | .OPTIONS => none

/-- What it leaves in its file, if it writes it. -/
def written (q : MountRequest σ) : Option (Option Bytes) :=
  if q.accepted mount ∧ validatePath q.call.request.path then q.accessWritten mount v else none

/-- A status that is sent with its text. -/
def statusAnswer (code : Int) : Option (Int × Bytes) := some (code, translateCode code)

/-- What it is answered with while its file holds this, if it is accepted with a valid path. -/
def accessAnswer (q : MountRequest σ) (held : Option Bytes) : Option (Int × Bytes) :=
  match q.option with
  | .GET => held.elim (statusAnswer 404) fun data => some (sentCode 204 data, data)
  | .HEAD => held.elim (statusAnswer 404) fun _ => none
  | .PUT | .POST =>
    if ¬ v.openable (q.file mount) then some (400, q.file mount ++ bytes " not openable")
    else (contentLength q.call.request).elim (statusAnswer 411) q.uploadAnswer
  | .DELETE => some (204, [])
  | .OPTIONS => statusAnswer 200

/-- What it is answered with while its file holds this. -/
def answer (q : MountRequest σ) (held : Option Bytes) : Option (Int × Bytes) :=
  if q.accepted mount ∧ (q.option = .OPTIONS ∨ validatePath q.call.request.path) then
    q.accessAnswer mount v held
  else statusAnswer 403

section Served

variable {call : Call σ} {parser : RequestParser} {files : FileSystem ν}
  {reads : List (Option ErrorCode × Bytes)}

/-- A response that no read follows. -/
theorem served_respond (outcome : ResponseHandler.Outcome) (flushed : Nat) :
    (reads.foldl MountRun.deliver
        ((MountRun.routed call parser files).respond outcome)).contentsLeft flushed =
        files.contents ∧
      (reads.foldl MountRun.deliver
        ((MountRun.routed call parser files).respond outcome)).call.answer =
          (call.respond outcome).answer := by
  rw [MountRun.foldl_deliver Bool.false_ne_true]
  exact ⟨rfl, rfl⟩

/-- A status that is sent with its text. -/
theorem served_sendStatus (h : call.Blank) {code : Int} (hcode : code ≠ 204)
    (hok : code = 200 → translateCode code ≠ []) (flushed : Nat) :
    (reads.foldl MountRun.deliver
        ((MountRun.routed call parser files).sendStatus code)).contentsLeft flushed =
        files.contents ∧
      (reads.foldl MountRun.deliver
        ((MountRun.routed call parser files).sendStatus code)).call.answer = statusAnswer code := by
  obtain ⟨hfiles, hanswer⟩ := @served_respond σ ν _ call parser files reads
    (call.response.sendStatus code) flushed
  exact ⟨hfiles, hanswer.trans (Call.answer_sendStatus h.effects h.headerSent hcode hok)⟩

variable {server mount mime v} {contents : ν → Option Bytes} {q : MountRequest σ}

/-- What is served as the request and the held file say. -/
structure ServedAs (mount : Mount σ) (v : Volume ν) (contents : ν → Option Bytes)
    (q : MountRequest σ) (s : MountRun σ ν) : Prop where
  left : s.contentsLeft q.flushed =
    (q.written mount v).elim contents (Function.update contents (v.place (q.file mount)))
  answered : s.call.answer = q.answer mount v (contents (v.place (q.file mount)))

/-- An accepted request whose path is not valid, or that asks for the methods. -/
theorem servedAs_of_sendStatus {code : Int} (hcall : call.Blank) (hcode : code ≠ 204)
    (hok : code = 200 → translateCode code ≠ []) (hwritten : q.written mount v = none)
    (hanswer : q.answer mount v (contents (v.place (q.file mount))) = statusAnswer code) :
    ServedAs mount v contents q (q.reads.foldl MountRun.deliver
      ((MountRun.routed call q.parser (v.files contents)).sendStatus code)) := by
  obtain ⟨hfiles, hstatus⟩ := @served_sendStatus σ ν _ call q.parser (v.files contents) q.reads
    hcall code hcode hok q.flushed
  refine ⟨?_, hstatus.trans hanswer.symm⟩
  rw [hfiles, v.contents_files, hwritten]
  rfl

/-- A path that is not valid is not used. -/
theorem proceed_forbidden {option : MountOption} {s : MountRun σ ν} (hoption : option ≠ .OPTIONS)
    (hvalid : ¬ validatePath s.call.request.path) :
    s.proceed mount mime option true = (s.sendStatus 403, none) := by
  cases option with
  | OPTIONS => exact absurd rfl hoption
  | GET => rw [MountRun.proceed_of_validated (a := .sendFile _) rfl, if_neg hvalid]
  | HEAD => rw [MountRun.proceed_of_validated (a := .read _) rfl, if_neg hvalid]
  | DELETE => rw [MountRun.proceed_of_validated (a := .removeAll _) rfl, if_neg hvalid]
  | PUT => rw [MountRun.proceed_of_validated (a := .write _) rfl, if_neg hvalid]
  | POST => rw [MountRun.proceed_of_validated (a := .write _) rfl, if_neg hvalid]

section Accessed

variable (hregular : v.Regular (q.file mount)) (hcall : call.Blank)
  (hpath : mountedPath mount.rootPath mount.pathTemplate call.request.path = q.file mount)
  (hwritten : q.written mount v = q.accessWritten mount v)
  (hanswer : ∀ held, q.answer mount v held = q.accessAnswer mount v held)
include hregular hcall hpath hwritten hanswer

/-- An upload that is accepted. -/
theorem servedAs_upload (hoption : q.option = .PUT ∨ q.option = .POST)
    (hlength : contentLength call.request = contentLength q.call.request)
    (hfits : ∀ n, contentLength q.call.request = some n → n < 2 ^ 63 ∧ q.arrived.length ≤ n)
    (k : Upload) :
    ServedAs mount v contents q (q.reads.foldl MountRun.deliver
      ((MountRun.routed call q.parser (v.files contents)).upload k
        (mountedPath mount.rootPath mount.pathTemplate call.request.path))) := by
  have hwritten' : q.written mount v = if ¬ v.openable (q.file mount) then none
      else some (some q.uploadWritten) := by
    rw [hwritten, accessWritten]
    rcases hoption with hoption | hoption
    · rw [hoption]
    · rw [hoption]
  have hanswer' : q.answer mount v (contents (v.place (q.file mount))) =
      if ¬ v.openable (q.file mount) then some (400, q.file mount ++ bytes " not openable")
      else (contentLength q.call.request).elim (statusAnswer 411) q.uploadAnswer := by
    rw [hanswer, accessAnswer]
    rcases hoption with hoption | hoption
    · rw [hoption]
    · rw [hoption]
  rw [hpath]
  by_cases hopen : v.openable (q.file mount)
  · have hopen' : (v.files contents).openable (q.file mount) := by
      rw [v.openable_files contents hregular, hopen]
    rw [if_neg (not_not.mpr hopen)] at hwritten' hanswer'
    set s := q.reads.foldl MountRun.deliver
      ((MountRun.routed call q.parser (v.files contents)).upload k (q.file mount)) with hs
    have hwriter : s.writer = some (q.file mount) := by
      rw [hs, MountRun.writer_foldl_deliver, MountRun.writer_upload hopen']
    have hleft : ∀ data, s.files = (v.files contents).put (q.file mount) data →
        s.contentsLeft q.flushed = Function.update contents (v.place (q.file mount))
          (some (if s.call.answer = none then data.take q.flushed else data)) := by
      intro data hfiles
      rw [MountRun.contentsLeft_of_writer hwriter hfiles, v.contents_files, v.place_files]
    cases hn : contentLength q.call.request with
    | none =>
      have hupload := MountRun.upload_of_none (k := k) hopen' (hlength.trans hn) q.parser
      have hsame : s = _ := MountRun.foldl_deliver hupload.reading q.reads
      rw [hn] at hanswer'
      have hanswered : s.call.answer = statusAnswer 411 := by
        rw [hsame, hupload.call]
        exact Call.answer_sendStatus hcall.effects hcall.headerSent (by decide) (by decide)
      refine ⟨?_, hanswered.trans hanswer'.symm⟩
      rw [hleft [] (by rw [hsame, hupload.files]), List.take_nil, ite_self, hwritten',
        uploadWritten, hn]
      rfl
    | some n =>
      obtain ⟨hsmall, hall⟩ := hfits n hn
      obtain ⟨hfiles, hanswered⟩ := MountRun.upload_reads hopen' hcall (hlength.trans hn) hsmall
        q.parser q.reads hall k
      rw [hn] at hanswer'
      refine ⟨?_, hanswered.trans hanswer'.symm⟩
      rw [hleft _ hfiles, hanswered, hwritten', uploadWritten, hn]
      rfl
  · have hopen' : ¬ (v.files contents).openable (q.file mount) := by
      rwa [v.openable_files contents hregular]
    rw [if_pos hopen] at hwritten' hanswer'
    rw [MountRun.upload_eq_of_not_openable hopen']
    obtain ⟨hfiles, hrespond⟩ := @served_respond σ ν _ call q.parser (v.files contents) q.reads
      ((call.response.status 400).send (.string (q.file mount ++ bytes " not openable"))) q.flushed
    have hsent : (call.response.status 400).headerSent = false := hcall.headerSent
    refine ⟨?_, ?_⟩
    · rw [hfiles, v.contents_files, hwritten']
      rfl
    · rw [hrespond, hanswer', Call.answer_send hcall.effects hsent]
      rfl

/-- A file that is sent. -/
theorem servedAs_sendFile (hoption : q.option = .GET) :
    ServedAs mount v contents q (q.reads.foldl MountRun.deliver (MountRun.answerThrown server
      ((MountRun.routed call q.parser (v.files contents)).access mime .GET
        (.sendFile (mountedPath mount.rootPath mount.pathTemplate call.request.path))))) := by
  have hend := v.endOf_files contents hregular
  have hnone : q.written mount v = none := by rw [hwritten, accessWritten, hoption]
  have hanswer' : q.answer mount v (contents (v.place (q.file mount))) =
      (contents (v.place (q.file mount))).elim (statusAnswer 404) fun data =>
        some (sentCode 204 data, data) := by
    rw [hanswer, accessAnswer, hoption]
  rw [hpath]
  cases hheld : contents (v.place (q.file mount)) with
  | none =>
    rw [hheld, Option.map_none] at hend
    rw [hheld] at hanswer'
    rw [MountRun.access]
    dsimp only [MountRun.routed]
    rw [hend]
    exact servedAs_of_sendStatus hcall (by decide) (by decide) hnone
      (by rw [hheld]; exact hanswer')
  | some data =>
    rw [hheld, Option.map_some] at hend
    rw [hheld, Option.elim_some] at hanswer'
    have hbody : ((v.files contents).contents ((v.files contents).place (q.file mount))).getD [] =
        data := by
      rw [v.contents_files, v.place_files, hheld, Option.getD_some]
    -- the handler with the type of the file, if it has one
    set r : ResponseHandler := if mime (q.file mount) ≠ [] then
      call.response.set (bytes "Content-Type") (mime (q.file mount)) else call.response with hr
    have hkept : r.headerSent = false ∧ r.header.code = 204 := by
      rw [hr]
      split_ifs
      · exact ⟨hcall.headerSent, hcall.code⟩
      · exact ⟨hcall.headerSent, hcall.code⟩
    have haccess : (MountRun.routed call q.parser (v.files contents)).access mime .GET
        (.sendFile (q.file mount)) =
          ((MountRun.routed call q.parser (v.files contents)).respond (r.send (.stream data)),
            none) := by
      rw [MountRun.access]
      dsimp only [MountRun.routed]
      rw [hend]
      dsimp only
      rw [hbody, ResponseHandler.sendFile, ResponseHandler.sendStream_length]
    obtain ⟨hfiles, hrespond⟩ := @served_respond σ ν _ call q.parser (v.files contents) q.reads
      (r.send (.stream data)) q.flushed
    rw [Call.answer_send hcall.effects hkept.1, hkept.2] at hrespond
    rw [haccess, MountRun.answerThrown]
    refine ⟨?_, ?_⟩
    · rw [hfiles, v.contents_files, hnone]
      rfl
    · rw [hheld, hanswer']
      exact hrespond

/-- A file that is opened and not sent. -/
theorem servedAs_read (hoption : q.option = .HEAD) :
    ServedAs mount v contents q (q.reads.foldl MountRun.deliver (MountRun.answerThrown server
      ((MountRun.routed call q.parser (v.files contents)).access mime .HEAD
        (.read (mountedPath mount.rootPath mount.pathTemplate call.request.path))))) := by
  have hend : (MountRun.routed call q.parser (v.files contents)).files.endOf (q.file mount) =
      (contents (v.place (q.file mount))).map fun data => (data.length : Int) :=
    v.endOf_files contents hregular
  have hnone : q.written mount v = none := by rw [hwritten, accessWritten, hoption]
  have hanswer' : q.answer mount v (contents (v.place (q.file mount))) =
      (contents (v.place (q.file mount))).elim (statusAnswer 404) fun _ => none := by
    rw [hanswer, accessAnswer, hoption]
  rw [hpath, MountRun.access]
  cases hheld : contents (v.place (q.file mount)) with
  | none =>
    rw [hheld, Option.map_none] at hend
    rw [hheld] at hanswer'
    rw [if_pos hend]
    exact servedAs_of_sendStatus hcall (by decide) (by decide) hnone
      (by rw [hheld]; exact hanswer')
  | some data =>
    rw [hheld, Option.map_some] at hend
    rw [hheld] at hanswer'
    rw [if_neg (by rw [hend]; exact Option.some_ne_none _), MountRun.answerThrown,
      MountRun.foldl_deliver Bool.false_ne_true]
    refine ⟨?_, ?_⟩
    · refine (v.contents_files contents).trans ?_
      rw [hnone]
      rfl
    · rw [hheld, hanswer']
      exact hcall.answer_none

/-- A file that is removed. -/
theorem servedAs_removeAll (hoption : q.option = .DELETE) :
    ServedAs mount v contents q (q.reads.foldl MountRun.deliver (MountRun.answerThrown server
      ((MountRun.routed call q.parser (v.files contents)).access mime .DELETE
        (.removeAll (mountedPath mount.rootPath mount.pathTemplate call.request.path))))) := by
  have hremove := v.removeAll_files contents hregular
  have hsome : q.written mount v = some none := by rw [hwritten, accessWritten, hoption]
  have hanswer' : q.answer mount v (contents (v.place (q.file mount))) = some (204, []) := by
    rw [hanswer, accessAnswer, hoption]
  have haccess : (MountRun.routed call q.parser (v.files contents)).access mime .DELETE
      (.removeAll (q.file mount)) =
        ((MountRun.routed call q.parser { v.files contents with
          contents := Function.update contents (v.place (q.file mount)) none }).sendStatus 204,
            none) := by
    rw [MountRun.access]
    dsimp only [MountRun.routed]
    rw [hremove]
  rw [hpath, haccess, MountRun.answerThrown]
  obtain ⟨hfiles, hrespond⟩ := @served_respond σ ν _ call q.parser { v.files contents with
    contents := Function.update contents (v.place (q.file mount)) none } q.reads
    (call.response.sendStatus 204) q.flushed
  have hsent : (call.response.status 204).headerSent = false := hcall.headerSent
  refine ⟨?_, ?_⟩
  · refine hfiles.trans ?_
    rw [hsome]
    rfl
  · rw [hanswer']
    refine hrespond.trans ?_
    rw [ResponseHandler.sendStatus, if_neg (not_not.mpr rfl),
      Call.answer_end hcall.effects hsent]
    rfl

end Accessed

/-- **What the handler of a method does** with a request that the callback has accepted. -/
theorem servedAs_accepted (h : q.Proper mount v) (haccepted : q.accepted mount = true)
    (hcall : call.Blank) (hpath : call.request.path = q.call.request.path)
    (hlength : contentLength call.request = contentLength q.call.request) :
    ServedAs mount v contents q (q.reads.foldl MountRun.deliver (MountRun.answerThrown server
      ((MountRun.routed call q.parser (v.files contents)).proceed mount mime q.option true))) := by
  have hfile : mountedPath mount.rootPath mount.pathTemplate call.request.path = q.file mount := by
    rw [hpath, file]
  by_cases hoptions : q.option = .OPTIONS
  · have hnone : q.written mount v = none := by
      rw [written, accessWritten, hoptions]
      exact ite_self _
    have hanswer : q.answer mount v (contents (v.place (q.file mount))) = statusAnswer 200 := by
      rw [answer, if_pos ⟨haccepted, Or.inl hoptions⟩, accessAnswer, hoptions]
    obtain ⟨hfiles, hrespond⟩ := @served_respond σ ν _ call q.parser (v.files contents) q.reads
      ((call.response.set (bytes "Allow")
        (MountRun.allowedMethods mount.supportedMethods)).sendStatus 200) q.flushed
    have hsent : (call.response.set (bytes "Allow")
        (MountRun.allowedMethods mount.supportedMethods)).headerSent = false := hcall.headerSent
    rw [hoptions]
    refine ⟨?_, ?_⟩
    · refine hfiles.trans ?_
      rw [v.contents_files, hnone]
      rfl
    · rw [hanswer]
      exact hrespond.trans (Call.answer_sendStatus hcall.effects hsent (by decide) (by decide))
  · by_cases hvalid : validatePath q.call.request.path
    · have hvalid' : validatePath
          (MountRun.routed call q.parser (v.files contents)).call.request.path :=
        (congrArg validatePath hpath).trans hvalid
      have hwritten : q.written mount v = q.accessWritten mount v := if_pos ⟨haccepted, hvalid⟩
      have hanswer : ∀ held, q.answer mount v held = q.accessAnswer mount v held :=
        fun _ => if_pos ⟨haccepted, Or.inr hvalid⟩
      have hupload := fun (hoption : q.option = .PUT ∨ q.option = .POST) =>
        @servedAs_upload _ _ _ _ v _ contents _ h.regular hcall hfile hwritten hanswer hoption
          hlength (h.fits hoption)
      cases hoption : q.option with
      | OPTIONS => exact absurd hoption hoptions
      | GET =>
        rw [MountRun.proceed_of_validated (a := .sendFile _) rfl, if_pos hvalid']
        exact servedAs_sendFile h.regular hcall hfile hwritten hanswer hoption
      | HEAD =>
        rw [MountRun.proceed_of_validated (a := .read _) rfl, if_pos hvalid']
        exact servedAs_read h.regular hcall hfile hwritten hanswer hoption
      | DELETE =>
        rw [MountRun.proceed_of_validated (a := .removeAll _) rfl, if_pos hvalid']
        exact servedAs_removeAll h.regular hcall hfile hwritten hanswer hoption
      | PUT =>
        rw [MountRun.proceed_of_validated (a := .write _) rfl, if_pos hvalid']
        exact hupload (Or.inl hoption) .put
      | POST =>
        rw [MountRun.proceed_of_validated (a := .write _) rfl, if_pos hvalid']
        exact hupload (Or.inr hoption) .post
    · have hnone : q.written mount v = none := if_neg fun hall => hvalid hall.2
      rw [proceed_forbidden hoptions (by rwa [← hpath] at hvalid)]
      refine servedAs_of_sendStatus hcall (by decide) (by decide) hnone (if_neg ?_)
      rintro ⟨-, hoption | hvalid'⟩
      · exact hoptions hoption
      · exact hvalid hvalid'

variable (server mime contents) in
/-- **A request that is served**. -/
theorem servedAs_serve (h : q.Proper mount v) :
    ServedAs mount v contents q (q.serve server mount mime v contents) := by
  obtain ⟨accepted, hresult⟩ := h.callback.result
  have haccepted : q.accepted mount = accepted := by rw [MountRequest.accepted, hresult]
  obtain ⟨-, hpath, hfields⟩ := q.call.run_kept server.storage (MountRun.asked mount q.call)
  have hblank := h.blank.run (p := server.storage) h.callback.adds
  set left := (q.call.run server.storage (MountRun.asked mount q.call)).1 with hleft
  have hrun : q.call.run server.storage (MountRun.asked mount q.call) = (left, .ok accepted) := by
    rw [← hresult]
    rfl
  have hlength : contentLength left.request = contentLength q.call.request := by
    rw [contentLength, RequestHeader.getField, hfields]
    rfl
  have hhandle : (MountRun.routed q.call q.parser (v.files contents)).handle server mount mime
      q.option = MountRun.answerThrown server
        ((MountRun.routed left q.parser (v.files contents)).proceed mount mime q.option
          accepted) := by
    simp only [MountRun.handle, MountRun.routed, hrun]
  rw [serve, hhandle]
  cases accepted with
  | true => exact servedAs_accepted h haccepted hblank hpath hlength
  | false =>
    have hrefused : ¬ q.accepted mount := by
      rw [haccepted]
      exact Bool.false_ne_true
    have hproceed : (MountRun.routed left q.parser (v.files contents)).proceed mount mime q.option
        false = ((MountRun.routed left q.parser (v.files contents)).sendStatus 403, none) := by
      have hopen : ¬ left.response.hasConcluded = true := by
        rw [hblank.unanswered]
        exact Bool.false_ne_true
      exact congrArg (·, none) (if_pos hopen)
    rw [hproceed]
    exact servedAs_of_sendStatus hblank (by decide) (by decide)
      (if_neg fun hall => hrefused hall.1) (if_neg fun hall => hrefused hall.1)

end Served

/-- What the requests leave in their files, in order. -/
def writes (qs : List (MountRequest σ)) : List (ν × Option Bytes) :=
  qs.filterMap fun q => (q.written mount v).map fun data => (v.place (q.file mount), data)

/-- A volume with a file at every path. -/
def plainVolume : Volume Bytes where
  files contents :=
    { place := id
      contents := contents
      endOf := fun path => (contents path).map fun data => (data.length : Int)
      openable := fun _ => true
      removeAll := fun path => (Function.update contents path none, none) }
  place := id
  openable _ := true
  Regular _ := True
  contents_files _ := rfl
  place_files _ := rfl
  endOf_files _ _ _ := rfl
  openable_files _ _ _ := rfl
  removeAll_files _ _ _ := rfl

/-- A `PUT` whose body comes in two reads. -/
def putRequest : MountRequest Unit where
  option := .PUT
  call := MountRun.filesRequest (some "2")
  parser := {}
  reads := [(none, bytes "h"), (none, bytes "i")]

/-- A `GET` of the same file. -/
def getRequest : MountRequest Unit where
  option := .GET
  call := MountRun.filesRequest none
  parser := {}
  reads := []

theorem proper_filesRequest (option : MountOption) (length : Option String) (parser : RequestParser)
    (reads : List (Option ErrorCode × Bytes))
    (h : option = .PUT ∨ option = .POST → ∀ n,
      contentLength (MountRun.filesRequest length).request = some n →
        n < 2 ^ 63 ∧ (parser.headerBuffer ++ brought reads).length ≤ n) :
    Proper MountRun.openMount plainVolume
      { option := option
        call := MountRun.filesRequest length
        parser := parser
        reads := reads } where
  blank := ⟨rfl, rfl, rfl⟩
  callback := ⟨⟨true, rfl⟩, fun _ hop => absurd hop List.not_mem_nil⟩
  regular := trivial
  fits := h

end MountRequest

end Attender.Http
