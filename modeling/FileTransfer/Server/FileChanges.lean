import FileTransfer.Server.FileRequests

/-! # What file requests change

A file request changes one node or none. These lemmas tell which, and exactly when.
-/

namespace FileTransfer

open Foundation Posix

/-! ## One operation -/

section Operations

variable {env : Env} {tree : FileTree} {location : Location}

theorem fCreateDir_exactly (env : Env) (tree : FileTree) (path : VerifiedPath) :
    (∃ location, tree.locate false path.path = .ok (.slot location) ∧ env.mkdir = true ∧
        (fCreateDir env tree path).2 = tree.put location .dir) ∨
      ((∀ location, tree.locate false path.path = .ok (.slot location) →
          env.mkdir = false) ∧ (fCreateDir env tree path).2 = tree) := by
  cases located : tree.locate false path.path with
  | error code =>
      refine .inr ⟨fun location impossible => ?_, ?_⟩
      · cases impossible
      · simp only [fCreateDir, FileTree.mkdir, located, Fallible.error_bind]
        cases code <;> rfl
  | ok target =>
      cases target with
      | node place =>
          refine .inr ⟨fun location impossible => ?_, ?_⟩
          · cases impossible
          · simp only [fCreateDir, FileTree.mkdir_node _ located]
      | slot place =>
          by_cases permitted : env.mkdir = true
          · refine .inl ⟨place, rfl, permitted, ?_⟩
            simp only [fCreateDir, FileTree.mkdir_slot _ located, permitted, if_true]
          · refine .inr ⟨fun _ _ => by simpa using permitted, ?_⟩
            simp only [fCreateDir, FileTree.mkdir_slot _ located, permitted, if_false,
              Bool.false_eq_true]

end Operations

/-! ## Whole requests -/

/-- What a file request puts at a place, `none` for a node that it takes away, and what
has to be so for it. -/
inductive FileChange (env : Env) (server : Server) (request : WirePayload) :
    Location → Option Node → Prop
  | deleted (child : CString) (location : Location)
      (asks : Asks request .deleteRemoteFile child)
      (resolved : fPathResolve server.tree server.db.homeDir.path child =
        .ok (some ⟨render location⟩))
      (deletable : Deletable env server.tree location) :
      FileChange env server request location none
  | made (child : CString) (path : VerifiedPath) (location : Location)
      (asks : Asks request .makeRemoteDirectory child)
      (resolved : fValidResolve server.tree server.db.homeDir.path child = .ok (some path))
      (free : server.tree.locate false path.path = .ok (.slot location))
      (permitted : env.mkdir = true) :
      FileChange env server request location (some .dir)
  | stored (payload : StdPayload) (path : VerifiedPath) (bytes : Bytes) (target : Target)
      (opcode : request.optCode = Act.putRemoteFile.toByte)
      (carried : request.payload = .std payload)
      (puts : Puts server payload path bytes)
      (located : server.tree.locate true path.path = .ok target)
      (opens : env.write.opens = true)
      (notDir : server.tree.get target.location ≠ some .dir)
      (notOther : server.tree.get target.location ≠ some .other) :
      FileChange env server request target.location (some (.file (env.write.kept bytes)))

structure ChangedAt (before after : FileTree) (location : Location) (node : Option Node) :
    Prop where
  there : after.get location = node
  elsewhere : FileTree.AgreeOff (· = location) before after

/-- Either one change that a request may make was made, or there is none to make. -/
def MadeExactly (env : Env) (server : Server) (request : WirePayload) (after : FileTree) :
    Prop :=
  (∃ location node, FileChange env server request location node ∧
      ChangedAt server.tree after location node) ∨
    (∀ location node, ¬ FileChange env server request location node) ∧ after = server.tree

section Requests

variable {env : Env} {server : Server} {request : WirePayload} {payload : StdPayload}
  {code : RetCode} {tree : FileTree} {location : Location} {node : Option Node}

theorem Deletable.removable (deletable : Deletable env tree location) :
    tree.Removable location := by
  rcases deletable with ⟨⟨content, isFile⟩, _⟩ | ⟨_, removable, _⟩
  · exact FileTree.removable_of_not_dir (by simp [isFile])
  · exact removable

namespace FileChange

/-! What a change was, by what the request asks for. -/

theorem of_delete (opcode : request.optCode = Act.deleteRemoteFile.toByte)
    (change : FileChange env server request location node) :
    node = none ∧ Deletable env server.tree location ∧
      ∃ child, Asks request .deleteRemoteFile child ∧
        fPathResolve server.tree server.db.homeDir.path child =
          .ok (some ⟨render location⟩) := by
  cases change with
  | deleted child location asks resolved deletable => exact ⟨rfl, deletable, child, asks, resolved⟩
  | made child path location asks resolved free permitted =>
      exact absurd (opcode.symm.trans asks.opcode) (by decide)
  | stored payload path bytes target opcode' carried puts located opens notDir notOther =>
      exact absurd (opcode.symm.trans opcode') (by decide)

theorem of_make (opcode : request.optCode = Act.makeRemoteDirectory.toByte)
    (change : FileChange env server request location node) :
    node = some .dir ∧ env.mkdir = true ∧ ∃ child path, Asks request .makeRemoteDirectory child ∧
      fValidResolve server.tree server.db.homeDir.path child = .ok (some path) ∧
      server.tree.locate false path.path = .ok (.slot location) := by
  cases change with
  | deleted child location asks resolved deletable =>
      exact absurd (opcode.symm.trans asks.opcode) (by decide)
  | made child path location asks resolved free permitted =>
      exact ⟨rfl, permitted, child, path, asks, resolved, free⟩
  | stored payload path bytes target opcode' carried puts located opens notDir notOther =>
      exact absurd (opcode.symm.trans opcode') (by decide)

theorem of_put (opcode : request.optCode = Act.putRemoteFile.toByte)
    (change : FileChange env server request location node) :
    env.write.opens = true ∧ ∃ payload path bytes target, request.payload = .std payload ∧
      Puts server payload path bytes ∧ server.tree.locate true path.path = .ok target ∧
      server.tree.get target.location ≠ some .dir ∧
      server.tree.get target.location ≠ some .other ∧
      location = target.location ∧ node = some (.file (env.write.kept bytes)) := by
  cases change with
  | deleted child location asks resolved deletable =>
      exact absurd (opcode.symm.trans asks.opcode) (by decide)
  | made child path location asks resolved free permitted =>
      exact absurd (opcode.symm.trans asks.opcode) (by decide)
  | stored payload path bytes target opcode' carried puts located opens notDir notOther =>
      exact ⟨opens, payload, path, bytes, target, carried, puts, located, notDir, notOther, rfl,
        rfl⟩

theorem unique {location' : Location} {node' : Option Node}
    (change : FileChange env server request location node)
    (change' : FileChange env server request location' node') :
    location = location' ∧ node = node' := by
  cases change with
  | deleted child location asks resolved deletable =>
      rcases change'.of_delete asks.opcode with ⟨rfl, _, child', asks', resolved'⟩
      cases (asks.unique asks').2
      rw [resolved] at resolved'
      have samePath := Option.some.inj (Except.ok.inj resolved')
      exact ⟨render_injective (congrArg VerifiedPath.path samePath), rfl⟩
  | made child path location asks resolved free permitted =>
      rcases change'.of_make asks.opcode with ⟨rfl, _, child', path', asks', resolved', free'⟩
      cases (asks.unique asks').2
      rw [resolved] at resolved'
      cases resolved'
      rw [free] at free'
      cases free'
      exact ⟨rfl, rfl⟩
  | stored payload path bytes target opcode carried puts located opens notDir notOther =>
      rcases change'.of_put opcode with
        ⟨_, payload', path', bytes', target', carried', puts', located', _, _, rfl, rfl⟩
      rw [carried] at carried'
      cases carried'
      have samePath := puts.verified.symm.trans puts'.verified
      cases samePath
      rw [located] at located'
      cases located'
      have sameBytes := puts.carried.symm.trans puts'.carried
      cases sameBytes
      exact ⟨rfl, rfl⟩

end FileChange

theorem Asks.given {act : Act} {child : CString} (asks : Asks request act child)
    (carried : request.payload = .std payload) : payload.cPath = some child := by
  rcases asks.path with ⟨payload', carried', path⟩
  rw [carried] at carried'
  cases carried'
  exact path

theorem doDelFile_exactly (opcode : request.optCode = Act.deleteRemoteFile.toByte)
    (carried : request.payload = .std payload)
    (done : doDelFile env server payload = .ok (code, tree)) :
    MadeExactly env server request tree := by
  rcases Fallible.ok_of_bind_ok done with ⟨resolved, found, done⟩
  cases resolved with
  | none =>
      cases done
      refine .inr ⟨fun location node change => ?_, rfl⟩
      rcases change.of_delete opcode with ⟨_, _, child, asks, resolves⟩
      rw [asks.given carried] at found
      exact absurd (found.symm.trans resolves) (by simp)
  | some path =>
      rcases fVerPathResolve_some found with ⟨child, given, found⟩
      rcases fPathResolve_place found with ⟨location, rfl, short, solid, _⟩
      rcases fDelFile_exactly solid short done with ⟨deletable, rfl⟩ | ⟨kept, rfl⟩
      · exact .inl ⟨location, none,
          .deleted child location ⟨opcode, payload, carried, given⟩ found deletable,
          FileTree.get_remove_self deletable.removable, server.tree.agreeOff_remove location⟩
      · refine .inr ⟨fun location' node change => ?_, rfl⟩
        rcases change.of_delete opcode with ⟨_, deletable, child', asks, resolves⟩
        have sameChild := (asks.given carried).symm.trans given
        cases sameChild
        rw [found] at resolves
        have samePath := Option.some.inj (Except.ok.inj resolves)
        cases render_injective (congrArg VerifiedPath.path samePath)
        exact kept deletable

theorem doMakeDir_exactly (opcode : request.optCode = Act.makeRemoteDirectory.toByte)
    (carried : request.payload = .std payload)
    (done : doMakeDir env server payload = .ok (code, tree)) :
    MadeExactly env server request tree := by
  rcases Fallible.ok_of_bind_ok done with ⟨resolved, found, done⟩
  cases resolved with
  | none =>
      cases done
      refine .inr ⟨fun location node change => ?_, rfl⟩
      rcases change.of_make opcode with ⟨_, _, child, path, asks, resolves, _⟩
      rw [asks.given carried] at found
      exact absurd (found.symm.trans resolves) (by simp)
  | some path =>
      rcases fVerValidResolve_some found with ⟨child, given, found⟩
      have created : (fCreateDir env server.tree path).2 = tree :=
        congrArg Prod.snd (Except.ok.inj done)
      rcases fCreateDir_exactly env server.tree path with
        ⟨location, free, permitted, made⟩ | ⟨refused, kept⟩
      · have holds := (FileTree.locate_delivered free).2
        refine .inl ⟨location, some .dir,
          .made child path location ⟨opcode, payload, carried, given⟩ found free permitted, ?_⟩
        rw [← created, made]
        exact ⟨FileTree.get_put_self _ holds, server.tree.agreeOff_put location .dir⟩
      · refine .inr ⟨fun location node change => ?_, created.symm.trans kept⟩
        rcases change.of_make opcode with ⟨_, permitted, child', path', asks, resolves, free⟩
        have sameChild := (asks.given carried).symm.trans given
        cases sameChild
        rw [found] at resolves
        cases resolves
        rw [refused location free] at permitted
        cases permitted

theorem doPutFile_exactly (opcode : request.optCode = Act.putRemoteFile.toByte)
    (carried : request.payload = .std payload)
    (done : doPutFile env server payload = .ok (code, tree)) :
    MadeExactly env server request tree := by
  have changes : ∀ {location node}, FileChange env server request location node →
      env.write.opens = true ∧ ∃ path bytes target, Puts server payload path bytes ∧
        server.tree.locate true path.path = .ok target ∧
        server.tree.get target.location ≠ some .dir ∧
        server.tree.get target.location ≠ some .other := by
    intro location node change
    rcases change.of_put opcode with
      ⟨opens, payload', path, bytes, target, carried', puts, located, notDir, notOther, _⟩
    rw [carried] at carried'
    cases carried'
    exact ⟨opens, path, bytes, target, puts, located, notDir, notOther⟩
  rcases doPutFile_cases done with ⟨path, bytes, puts, written⟩ | ⟨idle, _, rfl⟩
  · have samePath : ∀ {path' bytes'}, Puts server payload path' bytes' → path' = path := by
      intro path' bytes' puts'
      have same := puts'.verified.symm.trans puts.verified
      simpa using same
    rcases fWriteFile_cases env.write server.tree path bytes with
      ⟨target, located, opens, notDir, result⟩ | ⟨unready, code', _, result⟩
    · rw [written, Prod.mk.injEq] at result
      rcases result with ⟨_, rfl⟩
      by_cases isOther : server.tree.get target.location = some .other
      · rw [if_pos isOther]
        refine .inr ⟨fun location node change => ?_, rfl⟩
        rcases changes change with ⟨_, path', bytes', target', puts', located', _, notOther⟩
        cases samePath puts'
        rw [located] at located'
        cases located'
        exact notOther isOther
      · rw [if_neg isOther]
        have holds := FileTree.canHold_of_located located notDir
        exact .inl ⟨target.location, _,
          .stored payload path bytes target opcode carried puts located opens notDir isOther,
          FileTree.get_put_self _ holds, server.tree.agreeOff_put target.location _⟩
    · rw [written, Prod.mk.injEq] at result
      rcases result with ⟨_, rfl⟩
      refine .inr ⟨fun location node change => ?_, rfl⟩
      rcases changes change with ⟨opens, path', bytes', target', puts', located', notDir, _⟩
      cases samePath puts'
      exact unready ⟨target', located', opens, notDir⟩
  · refine .inr ⟨fun location node change => ?_, rfl⟩
    rcases changes change with ⟨_, path, bytes, _, puts, _⟩
    exact idle ⟨path, bytes, puts⟩

theorem FileChange.writes (change : FileChange env server request location node) :
    request.optCode = Act.deleteRemoteFile.toByte ∨
      request.optCode = Act.makeRemoteDirectory.toByte ∨
      request.optCode = Act.putRemoteFile.toByte := by
  cases change with
  | deleted child location asks resolved deletable => exact .inl asks.opcode
  | made child path location asks resolved free permitted => exact .inr (.inl asks.opcode)
  | stored payload path bytes target opcode carried puts located opens notDir notOther =>
      exact .inr (.inr opcode)

/-- A user who may write has the change made that the request asks for, if there is
one. -/
theorem performAction_exactly {sha : Sha256} {user : UserAccount} {after : Server}
    {response : ActResp} (permitted : Perms.readWrite ≤ user.permission)
    (notUser : request.optCode ≠ Act.userOperation.toByte)
    (done : performAction env sha user server request = .ok (response, after)) :
    MadeExactly env server request after.tree := by
  have acts : ∀ {action : Server → StdPayload → Except Fault (RetCode × FileTree)},
      (∀ payload code tree, request.payload = .std payload →
        action server payload = .ok (code, tree) → MadeExactly env server request tree) →
      writeAction user server request action = .ok (response, after) →
      MadeExactly env server request after.tree := by
    intro action exactly written
    rcases writeAction_cases written with
      ⟨low, _⟩ | ⟨payload, code, tree, _, carried, acted, _, rfl⟩
    · exact absurd permitted (UInt8.not_le.mpr low)
    · exact exactly payload code tree carried acted
  have reads : ∀ {act : Option Act}, Act.ofByte request.optCode = act →
      (∀ written ∈ [Act.deleteRemoteFile, .makeRemoteDirectory, .putRemoteFile],
        act ≠ some written) →
      after.tree = server.tree → MadeExactly env server request after.tree := by
    intro act opcode notWrite kept
    refine .inr ⟨fun location node change => ?_, kept⟩
    rcases change.writes with isDelete | isMake | isPut
    · exact notWrite .deleteRemoteFile (by simp)
        (opcode.symm.trans (by rw [isDelete, Act.ofByte_toByte]))
    · exact notWrite .makeRemoteDirectory (by simp)
        (opcode.symm.trans (by rw [isMake, Act.ofByte_toByte]))
    · exact notWrite .putRemoteFile (by simp)
        (opcode.symm.trans (by rw [isPut, Act.ofByte_toByte]))
  rw [performAction] at done
  split at done
  · rename_i opcode
    cases done
    exact reads opcode (by decide) rfl
  · rename_i opcode
    exact absurd (Act.toByte_of_ofByte opcode) notUser
  · rename_i opcode
    exact acts (fun _ _ _ => doDelFile_exactly (Act.toByte_of_ofByte opcode)) done
  · rename_i opcode
    exact acts (fun _ _ _ => doMakeDir_exactly (Act.toByte_of_ofByte opcode)) done
  · rename_i opcode
    exact acts (fun _ _ _ => doPutFile_exactly (Act.toByte_of_ofByte opcode)) done
  · rename_i opcode
    rcases Fallible.ok_of_bind_ok done with ⟨payload, _, done⟩
    rcases Fallible.ok_of_bind_ok done with ⟨listing, _, final⟩
    cases final
    exact reads opcode (by decide) rfl
  · rename_i opcode
    rcases Fallible.ok_of_bind_ok done with ⟨payload, _, done⟩
    rcases Fallible.ok_of_bind_ok done with ⟨file, _, final⟩
    cases final
    exact reads opcode (by decide) rfl
  · rename_i opcode
    cases done
    exact reads opcode (by decide) rfl

theorem performAction_reader {sha : Sha256} {user : UserAccount} {after : Server}
    {response : ActResp} (notPermitted : ¬ Perms.readWrite ≤ user.permission)
    (notUser : request.optCode ≠ Act.userOperation.toByte)
    (done : performAction env sha user server request = .ok (response, after)) :
    after.tree = server.tree := by
  cases performAction_effect done with
  | nothing kept => rw [kept]
  | users payload table opcode carried change saved =>
      exact absurd (Act.toByte_of_ofByte opcode) notUser
  | files act payload code tree opcode permitted carried performed answered stored =>
      exact absurd permitted notPermitted

theorem FileChange.setSessions (table : HashTable UInt32 Int)
    (change : FileChange env server request location node) :
    FileChange env (server.setSessions table) request location node := by
  cases change with
  | deleted child location asks resolved deletable =>
      exact .deleted child location asks resolved deletable
  | made child path location asks resolved free permitted =>
      exact .made child path location asks resolved free permitted
  | stored payload path bytes target opcode carried puts located opens notDir notOther =>
      exact .stored payload path bytes target opcode carried
        ⟨puts.absent, puts.verified, puts.carried⟩ located opens notDir notOther

theorem FileChange.of_setSessions {table : HashTable UInt32 Int}
    (change : FileChange env (server.setSessions table) request location node) :
    FileChange env server request location node :=
  change.setSessions server.db.seshHtable

end Requests

end FileTransfer
