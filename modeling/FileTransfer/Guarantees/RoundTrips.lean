import FileTransfer.Guarantees.Upload

/-! # Uploads that come back

A file that is put under a path and asked for under the same path. The upload goes to
the place that directory part and last component lead to, the download comes from the
place that the whole path leads to.
-/

namespace FileTransfer

open Foundation Posix

/-! ## The target of an upload -/

/-- A client path of permitted length whose directory part is a directory at home, and
whose last component names nothing there, or a link to nothing: opening it for writing
creates a file at `place`. -/
structure NewFile (server : Server) (home : Location) (child : CString) (above : Location)
    (name : Name) (place : Location) : Prop where
  serves : server.db.homeDir = ⟨render home⟩
  homeDir : server.tree.get home = some .dir
  permitted : (render home).length + child.length + slashPlusNull ≤ pathMax
  directory : server.tree.realpath (joined (render home) (dirname child.bytes)) =
    some (render above)
  within : AtOrBelow home above
  isDir : server.tree.get above = some .dir
  last : basename child.bytes = name.bytes
  absent : server.tree.walk true FileTree.maxLinks above [.name name] = .ok (.slot place)

/-- The whole path leads to the free place too, and what is there is at home. -/
structure LeadsBack (server : Server) (home : Location) (child : CString)
    (place : Location) : Prop where
  whole : server.tree.locate true (joined (render home) child.bytes) = .ok (.slot place)
  atHome : render home <+: render place
  short : (render place).length < pathMax

namespace NewFile

variable {server : Server} {home above place : Location} {child : CString} {name : Name}

theorem short (new : NewFile server home child above name place) :
    (joined (render home) child.bytes).length < pathMax := by
  have bound := joined_length_le (render home) child.bytes
  have permitted := new.permitted
  simp only [CString.length, slashPlusNull] at permitted
  omega

theorem whole_leads {target : Target} (new : NewFile server home child above name place)
    (whole : server.tree.locate true (joined (render home) child.bytes) = .ok target) :
    target = .slot place := by
  rcases endsIn_of_basename new.last with ⟨between, behind, ends⟩
  rcases locate_joined new.homeDir new.isDir new.directory ends new.short with
    ⟨left, fewer, located⟩
  rw [located] at whole
  have reached := FileTree.walk_mono fewer whole
  cases behind with
  | zero =>
      rw [List.replicate_zero, new.absent] at reached
      exact (Except.ok.inj reached).symm
  | succ behind =>
      exact absurd reached (FileTree.walk_behind_slot new.absent .here _ target)

theorem leadsBack_iff (new : NewFile server home child above name place)
    (missing : server.tree.get (name :: above) = none)
    (short : (render (name :: above)).length < pathMax) :
    LeadsBack server home child place ↔ child.bytes.getLast? ≠ some slash := by
  rcases endsIn_of_basename new.last with ⟨between, behind, ends⟩
  rcases locate_joined new.homeDir new.isDir new.directory ends new.short with
    ⟨left, _, located⟩
  have here : place = name :: above := by
    have absent := new.absent
    rw [FileTree.walk_missing _ new.isDir missing] at absent
    cases absent
    rfl
  have found := FileTree.walk_missing left new.isDir missing
  rw [ne_eq, ends.trailing_iff, not_not]
  constructor
  · intro leads
    have whole := leads.whole
    rw [located] at whole
    cases behind with
    | zero => rfl
    | succ behind => exact absurd whole (FileTree.walk_behind_slot found .here _ _)
  · rintro rfl
    subst here
    refine ⟨located.trans found, ?_, short⟩
    exact (new.within.strictlyBelow_cons name).atOrBelow.render_prefix

theorem realpath_none (new : NewFile server home child above name place) :
    server.tree.realpath (joined (render home) child.bytes) = none := by
  rw [FileTree.realpath]
  split
  · rename_i location located
    cases new.whole_leads located
  · rfl

theorem unresolved (new : NewFile server home child above name place) :
    fVerPathResolve server.tree server.db.homeDir (some child) = .ok none := by
  rw [fVerPathResolve, fPathResolve_eq, new.serves, new.realpath_none]
  simp

theorem verified_iff (new : NewFile server home child above name place)
    {path : VerifiedPath} :
    fVerValidResolve server.tree server.db.homeDir (some child) = .ok (some path) ↔
      (joined (render above) name.bytes).length < pathMax ∧
        path = ⟨joined (render above) name.bytes⟩ := by
  rcases endsIn_of_basename new.last with ⟨between, behind, ends⟩
  have fits : (joined (render home) (dirname child.bytes)).length < pathMax := by
    have bound := joined_length_le (render home) (dirname child.bytes)
    have shorter := ends.dirname_length_le
    have permitted := new.permitted
    simp only [CString.length, slashPlusNull] at permitted
    omega
  have notDot : name.bytes ≠ dot := name.valid.2.2.2.1
  have below : render home <+: joined (render above) name.bytes :=
    new.within.render_prefix.trans (List.prefix_append _ _)
  rw [fVerValidResolve, fValidResolve_some_iff, new.serves]
  simp only [fits, new.directory, new.last, Option.some.injEq, exists_eq_left', notDot, below,
    ne_eq, not_false_eq_true, true_and]

theorem locate_verified (new : NewFile server home child above name place)
    (fits : (joined (render above) name.bytes).length < pathMax) :
    server.tree.locate true (joined (render above) name.bytes) = .ok (.slot place) := by
  rw [joined_of_noSlash _ name.noSlash] at fits ⊢
  rw [FileTree.locate_below true (FileTree.solid_of_dir new.isDir) name.bytes fits,
    components_of_not_mem name.noSlash, Component.ofBytes_name, new.absent]

theorem place_free (new : NewFile server home child above name place) :
    server.tree.get place = none ∧ server.tree.CanHold place :=
  FileTree.walk_delivered (FileTree.solid_of_dir new.isDir) new.absent

/-- The upload is acknowledged, and creates the file, exactly if it brings something
and the joined path fits. -/
theorem put_iff {env : Env} (new : NewFile server home child above name place)
    (smooth : env.Smooth) {payload : StdPayload} (given : payload.cPath = some child)
    {tree : FileTree} :
    doPutFile env server payload = .ok (.opSuccess, tree) ↔
      ∃ stream, payload.byteStream = some stream ∧
        (joined (render above) name.bytes).length < pathMax ∧
        tree = server.tree.put place (.file stream) := by
  have free := new.place_free
  have written : ∀ stream, (joined (render above) name.bytes).length < pathMax →
      fWriteFile env.write server.tree ⟨joined (render above) name.bytes⟩ (some stream) =
        (.opSuccess, server.tree.put place (.file stream)) := by
    intro stream fits
    rcases fWriteFile_cases env.write server.tree ⟨joined (render above) name.bytes⟩ stream with
      ⟨target, located, _, _, result⟩ | ⟨unready, _⟩
    · rw [new.locate_verified fits] at located
      cases located
      rw [result, smooth.write, WriteOutcome.accepted_smooth, WriteOutcome.kept_smooth, if_pos rfl,
        Target.location_slot, if_neg (by simp [free.1])]
    · refine absurd ⟨_, new.locate_verified fits, ?_, ?_⟩ unready
      · rw [smooth.write]
        rfl
      · simp [free.1]
  constructor
  · intro done
    rcases doPutFile_cases done with ⟨path, bytes, puts, wrote⟩ | ⟨_, failed, _⟩
    · have verified := puts.verified
      rw [given, new.verified_iff] at verified
      rcases verified with ⟨fits, rfl⟩
      rw [written bytes fits, Prod.mk.injEq] at wrote
      exact ⟨bytes, puts.carried, fits, wrote.2.symm⟩
    · exact absurd rfl failed
  · rintro ⟨stream, carried, fits, rfl⟩
    have verified := new.verified_iff.mpr ⟨fits, rfl⟩
    simp only [doPutFile, given, new.unresolved, verified, carried, Fallible.ok_bind,
      written stream fits, Fallible.pure_eq_ok]

end NewFile

/-! ## The upload and the download -/

def Answers (env : Env) (sha : Sha256) (timeout : Int) (server : Server) (frame : Frame)
    (served : Served) : Prop :=
  ∀ rest ending, serveClient env sha timeout server
    { calloc := plenty, stream := ⟨frame.encode ++ rest, ending⟩ } = .ok served

theorem answers_iff {env : Env} {sha : Sha256} {timeout : Int} {server : Server}
    {frame : Frame} {user : UserAccount} {check : SessionCheck} {served : Served}
    (authentic : Authentic sha server.db.usersHtable frame.decoded user)
    (checked : checkSession env timeout server.db.seshHtable frame.session = .ok check)
    (passed : check.result = .opSuccess) :
    Answers env sha timeout server frame served ↔
      ∃ response after,
        performAction env sha user (server.setSessions check.table) frame.decoded =
            .ok (response, after) ∧
          served = ⟨some (response, check.sessionId), after⟩ := by
  have carried : ctrlParseAction env sha timeout server frame.decoded = _ :=
    ctrlParseAction_carries authentic checked passed
  simp only [Answers, serveClient_frame, carried, forall_const]
  constructor
  · intro done
    rcases Fallible.ok_of_bind_ok (done .closed) with ⟨handled, acted, final⟩
    rcases Fallible.ok_of_bind_ok acted with ⟨⟨response, after⟩, action, whole⟩
    cases whole
    cases final
    exact ⟨response, after, action, rfl⟩
  · rintro ⟨response, after, action, rfl⟩ _
    rw [action]
    rfl

def uploadOf (sha : Sha256) (path : ShortBytes) (stream : Bytes) : StdPayload where
  pathLen := path.val.length
  path := some path.val
  byteStream := if stream = [] then none else some stream
  hashStream := some (sha.digest stream)
  byteStreamLen := stream.length

def requestOf (path : ShortBytes) : StdPayload where
  pathLen := path.val.length
  path := some path.val

structure Exchange (sha : Sha256) (timeout : Int) (server : Server) (path : ShortBytes)
    (stream : Bytes) where
  putEnv : Env
  put : Frame
  writer : UserAccount
  putCheck : SessionCheck
  putSmooth : putEnv.Smooth
  isPut : put.opcode = Act.putRemoteFile.toByte
  carries : put.payload = .std path (some (⟨sha.digest stream, sha.size stream⟩, stream))
  putAuthentic : Authentic sha server.db.usersHtable put.decoded writer
  permitted : Perms.readWrite ≤ writer.permission
  putChecked : checkSession putEnv timeout server.db.seshHtable put.session = .ok putCheck
  putPassed : putCheck.result = .opSuccess
  getEnv : Env
  get : Frame
  reader : UserAccount
  getCheck : SessionCheck
  getSmooth : getEnv.Smooth
  isGet : get.opcode = Act.getRemoteFile.toByte
  asks : get.payload = .std path none
  getAuthentic : Authentic sha server.db.usersHtable get.decoded reader
  getChecked : checkSession getEnv timeout putCheck.table get.session = .ok getCheck
  getPassed : getCheck.result = .opSuccess

/-- The upload is acknowledged and creates a file at `place`, nothing else, and the
request that follows returns it. -/
structure ComesBack {sha : Sha256} {timeout : Int} {server : Server} {path : ShortBytes}
    {stream : Bytes} (exchange : Exchange sha timeout server path stream)
    (place : Location) (stored fetched : Served) : Prop where
  put : Answers exchange.putEnv sha timeout server exchange.put stored
  acknowledged : stored.response.map (·.1.result) = some .opSuccess
  created : stored.server.tree.get place = some (.file stream)
  others : FileTree.AgreeOff (· = place) server.tree stored.server.tree
  get : Answers exchange.getEnv sha timeout stored.server exchange.get fetched
  answered : fetched.response.map (·.1.result) =
    some (if stream = [] then .opFileEmpty else .opSuccess)
  returned : stream ≠ [] → ∃ content,
    (fetched.response.bind (·.1.content)) = some content ∧ content.stream = stream ∧
      content.hash = sha.digest stream

namespace Exchange

variable {sha : Sha256} {timeout : Int} {server : Server} {path : ShortBytes}
  {stream : Bytes} (exchange : Exchange sha timeout server path stream)

theorem put_answers_iff {stored : Served} :
    Answers exchange.putEnv sha timeout server exchange.put stored ↔
      ∃ code tree, doPutFile exchange.putEnv server (uploadOf sha path stream) =
          .ok (code, tree) ∧
        stored = ⟨some (ctrlPopulateResp code, exchange.putCheck.sessionId),
          (server.setSessions exchange.putCheck.table).setTree tree⟩ := by
  have carried : exchange.put.decoded.stdPayload = .ok (uploadOf sha path stream) := by
    rw [WirePayload.stdPayload, Frame.decoded, exchange.carries]
    rfl
  have opcode : Act.ofByte exchange.put.decoded.optCode = some .putRemoteFile := by
    rw [Frame.decoded, exchange.isPut, Act.ofByte_toByte]
  rw [answers_iff exchange.putAuthentic exchange.putChecked exchange.putPassed]
  simp only [performAction, opcode, writeAction, if_neg (UInt8.not_lt.mpr exchange.permitted),
    carried, Fallible.ok_bind]
  constructor
  · rintro ⟨response, after, action, rfl⟩
    rcases Fallible.ok_of_bind_ok action with ⟨⟨code, tree⟩, put, final⟩
    cases final
    exact ⟨code, tree, put, rfl⟩
  · rintro ⟨code, tree, put, rfl⟩
    refine ⟨ctrlPopulateResp code, (server.setSessions exchange.putCheck.table).setTree tree,
      ?_, rfl⟩
    have put' : doPutFile exchange.putEnv (server.setSessions exchange.putCheck.table)
        (uploadOf sha path stream) = .ok (code, tree) := put
    rw [put']
    rfl

theorem get_answers_iff {tree : FileTree} {fetched : Served} :
    Answers exchange.getEnv sha timeout
        ((server.setSessions exchange.putCheck.table).setTree tree) exchange.get fetched ↔
      ∃ response, doGetFile exchange.getEnv sha (server.setTree tree) (requestOf path) =
          .ok response ∧
        fetched = ⟨some (response, exchange.getCheck.sessionId),
          ((server.setSessions exchange.putCheck.table).setTree tree).setSessions
            exchange.getCheck.table⟩ := by
  have carried : exchange.get.decoded.stdPayload = .ok (requestOf path) := by
    rw [WirePayload.stdPayload, Frame.decoded, exchange.asks]
    rfl
  have opcode : Act.ofByte exchange.get.decoded.optCode = some .getRemoteFile := by
    rw [Frame.decoded, exchange.isGet, Act.ofByte_toByte]
  have authentic : Authentic sha
      ((server.setSessions exchange.putCheck.table).setTree tree).db.usersHtable
      exchange.get.decoded exchange.reader := exchange.getAuthentic
  have checked : checkSession exchange.getEnv timeout
      ((server.setSessions exchange.putCheck.table).setTree tree).db.seshHtable
      exchange.get.session = .ok exchange.getCheck := exchange.getChecked
  rw [answers_iff authentic checked exchange.getPassed]
  simp only [performAction, opcode, carried, Fallible.ok_bind]
  constructor
  · rintro ⟨response, after, action, rfl⟩
    rcases Fallible.ok_of_bind_ok action with ⟨answer, got, final⟩
    cases final
    exact ⟨response, got, rfl⟩
  · rintro ⟨response, got, rfl⟩
    refine ⟨response, _, ?_, rfl⟩
    have got' : doGetFile exchange.getEnv sha
        (((server.setSessions exchange.putCheck.table).setTree tree).setSessions
          exchange.getCheck.table) (requestOf path) = .ok response := got
    rw [got']
    rfl

end Exchange

theorem NewFile.resolves_iff {server : Server} {home above place location : Location}
    {child : CString} {name : Name} (new : NewFile server home child above name place)
    (stream : Bytes) :
    fVerPathResolve (server.tree.put place (.file stream)) server.db.homeDir (some child) =
        .ok (some ⟨render location⟩) ↔
      location = place ∧ LeadsBack server home child place := by
  have refilled := FileTree.refilled_put stream new.place_free.1 new.place_free.2
  rw [fVerPathResolve, fPathResolve_some_iff, new.serves]
  constructor
  · rintro ⟨_, found, atHome⟩
    rcases FileTree.realpath_eq_some found with ⟨place', located, same, short, _⟩
    rw [render_injective same] at atHome ⊢
    rcases refilled.locate_before located with ⟨target, earlier, leads⟩
    have isSlot := new.whole_leads earlier
    subst isSlot
    cases leads
    exact ⟨rfl, earlier, atHome, short⟩
  · rintro ⟨rfl, leads⟩
    have filled := FileTree.get_put_self (.file stream) new.place_free.2
    have located := refilled.locate_filled leads.whole filled
    refine ⟨new.permitted, ?_, leads.atHome⟩
    rw [FileTree.realpath, located]
    exact if_pos leads.short

/-- An upload to a new file comes back exactly if it is not empty, the path fits when it
is joined, and the whole path leads to the new file. -/
theorem comesBack_iff {sha : Sha256} {timeout : Int} {server : Server} {path : ShortBytes}
    {stream : Bytes} {home above place : Location} {name : Name}
    (exchange : Exchange sha timeout server path stream)
    (new : NewFile server home (CString.ofBuffer path.val) above name place) :
    (∃ stored fetched, ComesBack exchange place stored fetched) ↔
      stream ≠ [] ∧ (joined (render above) name.bytes).length < pathMax ∧
        LeadsBack server home (CString.ofBuffer path.val) place := by
  have puts : ∀ tree, doPutFile exchange.putEnv server (uploadOf sha path stream) =
      .ok (.opSuccess, tree) ↔ _ := fun tree => new.put_iff exchange.putSmooth rfl
  constructor
  · rintro ⟨stored, fetched, back⟩
    rcases exchange.put_answers_iff.mp back.put with ⟨code, tree, put, rfl⟩
    have acknowledged : code = .opSuccess := by simpa using back.acknowledged
    subst acknowledged
    rcases (puts tree).mp put with ⟨bytes, carried, fits, rfl⟩
    have nonempty : stream ≠ [] := by
      rintro rfl
      cases carried
    refine ⟨nonempty, fits, ?_⟩
    rcases exchange.get_answers_iff.mp back.get with ⟨response, got, rfl⟩
    rcases back.returned nonempty with ⟨content, returned, _⟩
    rcases doGetFile_content got returned with ⟨child, location, given, resolved, _⟩
    cases given
    exact ((new.resolves_iff bytes).mp resolved).2
  · rintro ⟨nonempty, fits, leads⟩
    have put := (puts (server.tree.put place (.file stream))).mpr
      ⟨stream, if_neg nonempty, fits, rfl⟩
    have filled := FileTree.get_put_self (.file stream) new.place_free.2
    have resolved := (new.resolves_iff stream).mpr ⟨rfl, leads⟩
    have read : fReadFile exchange.getEnv sha (server.tree.put place (.file stream))
        ⟨render place⟩ = _ := fReadFile_file leads.short filled (exchange.getSmooth.read.reads _)
    have got : doGetFile exchange.getEnv sha
        (server.setTree (server.tree.put place (.file stream))) (requestOf path) =
          .ok (contentResp ⟨sha.digest stream, stream, render place⟩) := by
      have given : (requestOf path).cPath = some (CString.ofBuffer path.val) := rfl
      simp only [doGetFile, given, Server.setTree_tree, Server.setTree_db, resolved, read,
        Fallible.ok_bind, if_neg nonempty, Fallible.pure_eq_ok]
    refine ⟨_, _, exchange.put_answers_iff.mpr ⟨_, _, put, rfl⟩, rfl, filled,
      server.tree.agreeOff_put place _, exchange.get_answers_iff.mpr ⟨_, got, rfl⟩, ?_, ?_⟩
    · rw [if_neg nonempty]
      rfl
    · exact fun _ => ⟨_, rfl, rfl, rfl⟩

/-! Uploads to `/home/notes`, which is not there yet. -/

def homeDirectory : Location := [⟨ascii "home", home_valid⟩]

theorem notesEntry_valid : NameValid (ascii "notes") := by decide

def notesEntry : Name := ⟨ascii "notes", notesEntry_valid⟩

theorem notes_new :
    NewFile uploadServer homeDirectory (CString.ofBuffer notesPath.val) homeDirectory notesEntry
      (notesEntry :: homeDirectory) where
  serves := by decide
  homeDir := by decide
  permitted := by decide
  directory := by decide +kernel
  within := by decide
  isDir := by decide
  last := by decide
  absent := by decide +kernel

def uploadExchange (stream : Bytes)
    (sized : (FramePayload.std notesPath
      (some (⟨passwordSha.digest stream, passwordSha.size stream⟩, stream))).encode.length <
        256 ^ 8) :
    Exchange passwordSha 60 uploadServer notesPath stream where
  putEnv := quietEnv
  put :=
    { alteredUpload with
      payload := .std notesPath
        (some (⟨passwordSha.digest stream, passwordSha.size stream⟩, stream))
      shaped := ⟨by decide, by decide⟩
      sized := sized }
  writer := accountNamed "alice" Perms.readWrite
  putCheck := ⟨.opSuccess, 7, HashTable.set ∅ 7 0⟩
  putSmooth := quietEnv_smooth
  isPut := rfl
  carries := rfl
  putAuthentic := authenticate_ok_iff.mp rfl
  permitted := by decide
  putChecked := rfl
  putPassed := rfl
  getEnv := quietEnv
  get :=
    { alteredUpload with
      opcode := Act.getRemoteFile.toByte
      session := 7
      payload := .std notesPath none
      shaped := ⟨by decide, by decide⟩
      sized := by decide }
  reader := accountNamed "alice" Perms.readWrite
  getCheck := ⟨.opSuccess, 7, (HashTable.set ∅ 7 0).set 7 0⟩
  getSmooth := quietEnv_smooth
  isGet := rfl
  asks := rfl
  getAuthentic := authenticate_ok_iff.mp rfl
  getChecked := rfl
  getPassed := rfl

theorem empty_upload_is_refused :
    NewFile uploadServer homeDirectory (CString.ofBuffer notesPath.val) homeDirectory notesEntry
        (notesEntry :: homeDirectory) ∧
      ¬ ∃ stored fetched, ComesBack (uploadExchange [] (by decide))
        (notesEntry :: homeDirectory) stored fetched := by
  refine ⟨notes_new, ?_⟩
  rintro ⟨stored, fetched, back⟩
  rcases (uploadExchange [] (by decide)).put_answers_iff.mp back.put with
    ⟨code, tree, put, rfl⟩
  have acknowledged : code = .opSuccess := by simpa using back.acknowledged
  subst acknowledged
  rcases (notes_new.put_iff (uploadExchange [] (by decide)).putSmooth rfl).mp put with
    ⟨bytes, carried, _⟩
  cases carried

theorem comesBack_iff_short_note :
    ∃ stored fetched, ComesBack (uploadExchange (ascii "note") (by decide))
      (notesEntry :: homeDirectory) stored fetched := by
  have leads := (notes_new.leadsBack_iff (by decide) (by decide)).mpr (by decide)
  exact (comesBack_iff (uploadExchange (ascii "note") (by decide)) notes_new).mpr
    ⟨by decide, by decide, leads⟩

end FileTransfer
