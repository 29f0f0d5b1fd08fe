import Attender.Http.MountHandlers

/-!
# Refused uploads

The handlers of `PUT` and `POST` refuse a request with a 4xx status: they do so
before the file is opened, but for a request without a `Content-Length`. That is
found out by `read_body`, when the file has been truncated already, so it keeps
what it held only if that was nothing (`refused_upload_iff`).
-/

namespace Attender.Http

open Attender.Library Attender.Session Attender.Utility

/-! ### Answers that refuse -/

/-- A 4xx status. -/
def ClientError (code : Int) : Prop := 400 ≤ code ∧ code < 500

/-- A header with a 4xx status has been written. -/
def Call.Refused {σ : Type} (call : Call σ) : Prop :=
  ∃ header k, .write header k ∈ call.effects ∧ ClientError header.code

namespace Call

variable {σ : Type} {call : Call σ}

theorem refused_respond_sendHeader (r : ResponseHandler) (k : HeaderContinuation) :
    (call.respond (r.sendHeader k)).Refused ↔
      call.Refused ∨ (r.headerSent = false ∧ ClientError r.header.code) := by
  cases hsent : r.headerSent with
  | true =>
    obtain ⟨r', e, -⟩ := ResponseHandler.sendHeader_of_sent hsent k
    rw [e]
    simp [Refused, respond]
  | false =>
    have e : (r.sendHeader k).2 = [.write r.header k] := by
      rw [ResponseHandler.sendHeader]
      exact congrArg Prod.snd (if_pos hsent)
    simp only [Refused, respond, e, List.mem_append, List.mem_singleton,
      ResponseEffect.write.injEq, or_and_right, exists_or, true_and]
    simp

theorem refused_end :
    (call.respond call.response.end_).Refused ↔
      call.Refused ∨ (call.response.headerSent = false ∧ ClientError call.response.header.code) :=
  refused_respond_sendHeader call.response.conclude .remove

theorem refused_answer (k : Upload) :
    (call.respond (k.answer call.response)).Refused ↔ call.Refused := by
  rw [k.answer_eq, ResponseHandler.end_, refused_respond_sendHeader, or_iff_left]
  rintro ⟨-, h⟩
  have h204 : ¬ ClientError 204 := fun h => absurd h.1 (by decide)
  exact h204 h

theorem refused_lengthRequired :
    (call.respond (call.response.sendStatus 411)).Refused ↔
      call.Refused ∨ call.response.headerSent = false := by
  have hcode : ∀ (r : ResponseHandler) field value,
      (r.trySet field value).header.code = r.header.code := by
    intro r field value
    rw [ResponseHandler.trySet]
    split_ifs
    · rfl
    · rfl
  obtain ⟨r, k, hsent, h411, e⟩ : ∃ (r : ResponseHandler) (k : HeaderContinuation),
      r.headerSent = call.response.headerSent ∧ r.header.code = 411 ∧
        call.response.sendStatus 411 = r.sendHeader k := by
    refine ⟨_, _, ?_, ?_, rfl⟩ <;>
      simp [hcode, ResponseHandler.status, ResponseHeader.setCode]
  rw [e, refused_respond_sendHeader, hsent, h411, and_iff_left]
  exact ⟨by decide, by decide⟩

end Call

/-! ### What is left of the file -/

/-- A refused upload leaves the files alone at the places `under` the root of the mount, however the
reads of the connection complete. -/
def LeavesFilesAlone {σ ν : Type} [DecidableEq ν] (under : Set ν) (leftover : Bytes)
    (contents : ν → Option Bytes) (s : MountRun σ ν) : Prop :=
  ∀ reads : List (Option ErrorCode × Bytes),
    (leftover ++ (reads.map Prod.snd).flatten).length < 2 ^ 63 →
      (reads.foldl MountRun.deliver s).call.Refused →
        Set.EqOn (reads.foldl MountRun.deliver s).files.contents contents under

/-- The file, which held `old`, holds it still when the upload is refused; `call` is what the
callback has left. -/
def Spared {σ : Type} (call : Call σ) (leftover : Bytes) (old : Option Bytes) : Prop :=
  match contentLength call.request with
  -- the answer is 411, and the file is empty
  | none => call.Refused ∨ call.response.headerSent = false → old = some []
  | some n =>
    -- the callback has refused and yet accepted, so the body is read
    (call.Refused → ThereAtOnce n leftover ∧ old = some leftover) ∧
      -- a status that the callback has set is sent by a read that fails
      (call.response.headerSent = false ∧ ClientError call.response.header.code →
        ThereAtOnce n leftover ∨ (old = some leftover ∧ toInt64 n ≤ leftover.length + 1))

namespace MountRun

variable {ι σ ν : Type} [DecidableEq ν] {under : Set ν} {call : Call σ} {files : FileSystem ν}
  {k : Upload} {path received leftover : Bytes} {n : Nat} {s : MountRun σ ν}

theorem eqOn_put_iff (files : FileSystem ν) (path data : Bytes) :
    Set.EqOn (files.put path data).contents files.contents under ↔
      (files.place path ∈ under → files.contents (files.place path) = some data) := by
  constructor
  · intro h hunder
    rw [← h hunder, FileSystem.contents_put, Function.update_self]
  · intro h p hp
    by_cases hplace : p = files.place path
    · subst hplace
      rw [h hp, FileSystem.contents_put, Function.update_self]
    · rw [FileSystem.contents_put, Function.update_of_ne hplace]

/-- A request that reads nothing and leaves the files alone. -/
theorem leavesFilesAlone_of_eq {contents : ν → Option Bytes} (h : ¬ s.reading)
    (hfiles : s.files.contents = contents) : LeavesFilesAlone under leftover contents s := by
  intro reads _ _
  rw [foldl_deliver h, hfiles]
  exact Set.eqOn_refl _ _

theorem Uploaded.leavesFilesAlone_iff {call' : Call σ}
    (h : Uploaded call' files path received s) (hsmall : leftover.length < 2 ^ 63) :
    LeavesFilesAlone under leftover files.contents s ↔
      (files.place path ∈ under → call'.Refused →
        files.contents (files.place path) = some received) := by
  constructor
  · intro halone hunder hrefused
    refine (eqOn_put_iff files path received).mp ?_ hunder
    rw [← h.files]
    exact halone [] (by simpa using hsmall) (h.call.symm ▸ hrefused)
  · intro halone reads _ hrefused
    rw [foldl_deliver h.reading, h.call] at hrefused
    rw [foldl_deliver h.reading, h.files, eqOn_put_iff]
    exact fun hunder => halone hunder hrefused

theorem contents_eq_of_leavesFilesAlone {data : Bytes}
    (h : LeavesFilesAlone under leftover files.contents s) (hunder : files.place path ∈ under)
    (reads : List (Option ErrorCode × Bytes))
    (hsmall : (leftover ++ (reads.map Prod.snd).flatten).length < 2 ^ 63)
    (hreads : (reads.foldl deliver s).call.Refused ∧
      (reads.foldl deliver s).files = files.put path data) :
    files.contents (files.place path) = some data := by
  refine (eqOn_put_iff files path data).mp ?_ hunder
  rw [← hreads.2]
  exact h reads hsmall hreads.1

/-- **The reads of an upload** that is not refused so far. -/
theorem Uploading.leavesFilesAlone (h : Uploading call files k path received s)
    (hlength : contentLength call.request = some n) (hopen : ¬ call.Refused)
    (hkept : call.response.headerSent = false ∧ ClientError call.response.header.code →
      files.contents (files.place path) = some received ∧ toInt64 n ≤ received.length + 1) :
    LeavesFilesAlone under received files.contents s := by
  intro reads hsmall hrefused
  induction reads generalizing s received with
  | nil =>
    rw [List.foldl_nil, h.call] at hrefused
    exact absurd hrefused hopen
  | cons read reads ih =>
    obtain ⟨ec, amount⟩ := read
    simp only [List.map_cons, List.flatten_cons, ← List.append_assoc] at hsmall
    rw [List.foldl_cons] at hrefused ⊢
    cases ec with
    | some ec =>
      have hfail := h.fail ec amount
      rw [foldl_deliver hfail.reading] at hrefused ⊢
      rw [hfail.files, eqOn_put_iff]
      refine fun _ => (hkept ?_).1
      rw [hfail.call] at hrefused
      split_ifs at hrefused
      · exact (Call.refused_end.mp hrefused).resolve_left hopen
      · exact absurd hrefused hopen
    | none =>
      have hamount : (received ++ amount).length < 2 ^ 63 := by
        rw [List.length_append] at hsmall
        omega
      have hread := h.deliver hlength hamount
      split_ifs at hread with hthere
      · rw [foldl_deliver hread.reading, hread.call, Call.refused_answer] at hrefused
        exact absurd hrefused hopen
      · refine ih hread ?_ hsmall hrefused
        intro hset
        obtain ⟨hold, hnext⟩ := hkept hset
        -- the next byte would have been the last
        have hnil : amount = [] := by
          by_contra hne
          have := List.length_pos_iff.mpr hne
          rw [List.length_append] at hthere
          omega
        rw [hnil, List.append_nil]
        exact ⟨hold, hnext⟩

theorem Uploading.refused_fail (h : Uploading call files k path received s)
    (hset : call.response.headerSent = false ∧ ClientError call.response.header.code) :
    (s.deliver (some .eof, [])).call.Refused ∧
      (s.deliver (some .eof, [])).files = files.put path received := by
  have hfail := h.fail .eof []
  rw [if_pos (by decide)] at hfail
  rw [hfail.call, hfail.files]
  exact ⟨Call.refused_end.mpr (Or.inr hset), rfl⟩

theorem Uploading.deliver_files (h : Uploading call files k path received s)
    (hlength : contentLength call.request = some n) {amount : Bytes}
    (hsmall : (received ++ amount).length < 2 ^ 63) (hrefused : call.Refused) :
    (s.deliver (none, amount)).call.Refused ∧
      (s.deliver (none, amount)).files = files.put path (received ++ amount) := by
  have hread := h.deliver hlength hsmall
  split_ifs at hread
  · rw [hread.call, hread.files]
    exact ⟨(Call.refused_answer k).mpr hrefused, rfl⟩
  · rw [hread.call, hread.files]
    exact ⟨hrefused, rfl⟩

omit [DecidableEq ν] in
theorem foldl_react_files (effects : List (RequestEffect Upload Unit)) (s : MountRun σ ν) :
    (effects.foldl react s).files = s.files ∧ (effects.foldl react s).writer = s.writer := by
  induction effects generalizing s with
  | nil => exact ⟨rfl, rfl⟩
  | cons e effects ih =>
    obtain ⟨hfiles, hwriter⟩ := ih (s.react e)
    rw [List.foldl_cons, hfiles, hwriter]
    cases e with
    | call c => cases c <;> exact ⟨rfl, rfl⟩
    | read | sendStatus code | endResponse => exact ⟨rfl, rfl⟩

/-- Whatever the request handler does, no other file is changed than that which has been opened. -/
theorem perform_files (hwriter : s.writer = some path)
    (hfiles : ∃ data, s.files = files.put path data)
    (outcome : RequestHandler.Outcome Upload Unit) :
    (s.perform outcome).writer = some path ∧
      ∃ data, (s.perform outcome).files = files.put path data := by
  obtain ⟨data, hdata⟩ := hfiles
  obtain ⟨hfiles, hsame⟩ := foldl_react_files outcome.2
    { s with handler := outcome.1, files := s.files.put path outcome.1.sink.data }
  have hperform : s.perform outcome = outcome.2.foldl react
      { s with handler := outcome.1, files := s.files.put path outcome.1.sink.data } := by
    simp only [perform, hwriter]
  rw [hperform, hsame, hfiles, hdata]
  exact ⟨hwriter, outcome.1.sink.data, FileSystem.put_put files path _ _⟩

/-- **The reads of an upload** change no other file. -/
theorem foldl_deliver_files (reads : List (Option ErrorCode × Bytes))
    (hwriter : s.writer = some path) (hfiles : ∃ data, s.files = files.put path data) :
    ∃ data, (reads.foldl deliver s).files = files.put path data := by
  induction reads generalizing s with
  | nil => exact hfiles
  | cons read reads ih =>
    rw [List.foldl_cons, deliver]
    split_ifs
    · obtain ⟨hwriter', hfiles'⟩ := perform_files (s := { s with reading := false }) hwriter hfiles
        (s.handler.bodyReadHandler read.1 read.2)
      exact ih hwriter' hfiles'
    · exact ih hwriter hfiles

theorem upload_leavesFilesAlone_of_not_mem (hopen : files.openable path)
    (hunder : files.place path ∉ under) (parser : RequestParser) :
    LeavesFilesAlone under leftover files.contents ((routed call parser files).upload k path) := by
  intro reads _ _
  obtain ⟨data, e⟩ : ∃ data,
      (reads.foldl deliver ((routed call parser files).upload k path)).files =
        files.put path data := by
    rw [upload_eq hopen]
    obtain ⟨hwriter, hfiles⟩ := perform_files (s := opened call parser files path) rfl ⟨[], rfl⟩
      ((opened call parser files path).handler.readBody 0)
    obtain ⟨hwriter, hfiles⟩ := perform_files hwriter hfiles _
    obtain ⟨hwriter, hfiles⟩ := perform_files hwriter hfiles _
    exact foldl_deliver_files reads hwriter hfiles
  rw [e, eqOn_put_iff]
  exact fun h => absurd h hunder

/-- **An upload** spares the file, when it is refused, exactly under that condition. -/
theorem upload_leavesFilesAlone_iff (hopen : files.openable path)
    (hunder : files.place path ∈ under) {parser : RequestParser}
    (hsmall : parser.headerBuffer.length + 1 < 2 ^ 63) :
    LeavesFilesAlone under parser.headerBuffer files.contents
        ((routed call parser files).upload k path) ↔
      Spared call parser.headerBuffer (files.contents (files.place path)) := by
  have hleft : parser.headerBuffer.length < 2 ^ 63 := by omega
  cases hlength : contentLength call.request with
  | none =>
    have hupload := upload_of_none (k := k) hopen hlength parser
    rw [hupload.leavesFilesAlone_iff hleft, imp_iff_right hunder, Call.refused_lengthRequired,
      Spared, hlength]
  | some n =>
    have hupload := upload_of_some (k := k) hopen hlength hleft
    rw [Spared, hlength]
    dsimp only
    split_ifs at hupload with hthere
    · rw [hupload.leavesFilesAlone_iff hleft, imp_iff_right hunder, Call.refused_answer]
      exact ⟨fun h => ⟨fun hrefused => ⟨hthere, h hrefused⟩, fun _ => Or.inl hthere⟩,
        fun h hrefused => (h.1 hrefused).2⟩
    · have hnext : (parser.headerBuffer ++ [0]).length < 2 ^ 63 := by simpa using hsmall
      have hmore : parser.headerBuffer ++ [0] ≠ parser.headerBuffer := by simp
      constructor
      · intro halone
        refine ⟨fun hrefused => ?_, fun hset => Or.inr ?_⟩
        · have hnow := contents_eq_of_leavesFilesAlone halone hunder [] (by simpa using hleft)
            ⟨by rw [List.foldl_nil, hupload.call]; exact hrefused, hupload.files⟩
          have hthen := contents_eq_of_leavesFilesAlone halone hunder [(none, [0])] hnext
            (hupload.deliver_files hlength hnext hrefused)
          exact absurd (Option.some.inj (hthen.symm.trans hnow)) hmore
        · have hnow := contents_eq_of_leavesFilesAlone halone hunder [(some .eof, [])]
            (by simpa using hleft) (hupload.refused_fail hset)
          refine ⟨hnow, ?_⟩
          by_contra hlong
          have hread := hupload.deliver hlength hnext
          rw [if_neg (by simpa using hlong)] at hread
          have hthen := contents_eq_of_leavesFilesAlone halone hunder
            [(none, [0]), (some .eof, [])] (by simpa using hnext) (hread.refused_fail hset)
          exact hmore (Option.some.inj (hthen.symm.trans hnow))
      · intro hspared
        refine hupload.leavesFilesAlone hlength (fun hrefused => hthere (hspared.1 hrefused).1) ?_
        exact fun hset => (hspared.2 hset).resolve_left hthere

/-- **A refused upload leaves the files alone** exactly when its file is not opened, or is not under
the root, or is spared: for every callback, every file system, and however the reads of the
connection complete. -/
theorem refused_upload_iff (under : Set ν) (server : HttpBasicServer ι σ) (mount : Mount σ)
    (mime : Bytes → Bytes) (option : MountOption) (hoption : option = .PUT ∨ option = .POST)
    (call : Call σ) (parser : RequestParser) (files : FileSystem ν)
    (hsmall : parser.headerBuffer.length + 1 < 2 ^ 63) :
    LeavesFilesAlone under parser.headerBuffer files.contents
        ((routed call parser files).handle server mount mime option) ↔
      ((asked mount call).result = .ok true → validatePath call.request.path →
        let path := mountedPath mount.rootPath mount.pathTemplate call.request.path
        files.openable path → files.place path ∈ under →
          Spared (call.run server.storage (asked mount call)).1 parser.headerBuffer
            (files.contents (files.place path))) := by
  have hpath := (call.run_kept server.storage (asked mount call)).2.1
  set left := (call.run server.storage (asked mount call)).1 with hleft
  have hrun : call.run server.storage (asked mount call) = (left, (asked mount call).result) := rfl
  set path := mountedPath mount.rootPath mount.pathTemplate call.request.path with hmounted
  cases hresult : (asked mount call).result with
  | error e =>
    have hhandle : (routed call parser files).handle server mount mime option =
        answerThrown server (routed left parser files, some e) := by
      simp only [handle, routed, hrun, hresult]
    rw [hhandle]
    refine iff_of_true (leavesFilesAlone_of_eq Bool.false_ne_true rfl) ?_
    intro haccepted
    cases haccepted
  | ok accepted =>
    have hhandle : (routed call parser files).handle server mount mime option =
        answerThrown server ((routed left parser files).proceed mount mime option accepted) := by
      simp only [handle, routed, hrun, hresult]
    rw [hhandle]
    cases accepted with
    | false =>
      have hrefused : answerThrown server
          ((routed left parser files).proceed mount mime option false) =
            if ¬ left.response.hasConcluded then (routed left parser files).sendStatus 403
            else routed left parser files := rfl
      rw [hrefused]
      refine iff_of_true ?_ fun haccepted => by cases haccepted
      split_ifs
      · exact leavesFilesAlone_of_eq Bool.false_ne_true rfl
      · exact leavesFilesAlone_of_eq Bool.false_ne_true rfl
    | true =>
      obtain ⟨k, haccepted⟩ := proceed_upload server mount mime hoption left parser files
      rw [hpath, ← hmounted] at haccepted
      rw [haccepted]
      by_cases hvalid : validatePath call.request.path
      · rw [if_pos hvalid]
        by_cases hopen : files.openable path
        · by_cases hunder : files.place path ∈ under
          · rw [upload_leavesFilesAlone_iff hopen hunder hsmall]
            exact ⟨fun h _ _ _ _ => h, fun h => h rfl hvalid hopen hunder⟩
          · exact iff_of_true (upload_leavesFilesAlone_of_not_mem hopen hunder parser)
              fun _ _ _ h => absurd h hunder
        · rw [upload_eq_of_not_openable hopen]
          exact iff_of_true (leavesFilesAlone_of_eq Bool.false_ne_true rfl)
            fun _ _ h => absurd h hopen
      · rw [if_neg hvalid]
        exact iff_of_true (leavesFilesAlone_of_eq Bool.false_ne_true rfl)
          fun _ h => absurd h hvalid

theorem spared_put : Spared (filesRequest (some "2")) (bytes "a") (some (bytes "old")) := by
  rw [Spared, show contentLength (filesRequest (some "2")).request = some 2 by decide]
  refine ⟨fun hrefused => ?_, fun hset => absurd hset.2.1 (by decide)⟩
  obtain ⟨header, k, hmem, -⟩ := hrefused
  exact absurd hmem List.not_mem_nil

/-- A `PUT` of two bytes, one of which is read behind the header. -/
theorem refused_upload_put :
    LeavesFilesAlone Set.univ (bytes "a") (oneFile (bytes "old")).contents
      ((routed (filesRequest (some "2")) { headerBuffer := bytes "a" }
        (oneFile (bytes "old"))).handle plainServer openMount (fun _ => []) .PUT) :=
  (refused_upload_iff Set.univ plainServer openMount (fun _ => []) .PUT (Or.inl rfl)
    (filesRequest (some "2")) { headerBuffer := bytes "a" } (oneFile (bytes "old"))
    (by decide)).mpr fun _ _ _ _ => spared_put

/-- A `PUT` without a length is answered with 411, and the file is empty. -/
theorem refused_upload_truncates :
    ¬ ∀ (under : Set Unit) (server : HttpBasicServer Unit Unit) (mount : Mount Unit)
      (mime : Bytes → Bytes) (option : MountOption) (call : Call Unit) (parser : RequestParser)
      (files : FileSystem Unit), option = .PUT ∨ option = .POST →
      LeavesFilesAlone under parser.headerBuffer files.contents
        ((routed call parser files).handle server mount mime option) := by
  intro hclaim
  have h := hclaim Set.univ plainServer openMount (fun _ => []) .PUT (filesRequest none) {}
    (oneFile (bytes "old")) (Or.inl rfl) [] (by decide)
    ⟨_, _, List.mem_singleton.mpr rfl, by decide, by decide⟩
  exact absurd (h (Set.mem_univ ())) (by decide)

end MountRun

end Attender.Http
