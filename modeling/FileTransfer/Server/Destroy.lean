import FileTransfer.Foundation.Fallible
import FileTransfer.Server.Sock

/-! # `ctrl_destroy`

What the destroyer of a request gives back. It goes by the tag of the payload, and the
reader is to set the tag that belongs to the member it fills in.
-/

namespace FileTransfer

open Foundation

/-! ## What a request holds -/

def arrays (pointers : List (Field × Option Bytes)) : List Allocation :=
  (pointers.filter (·.2.isSome)).map fun pointer => .array pointer.1

def StdPayload.held (load : StdPayload) : List Allocation :=
  .stdPayload :: arrays
    [(.path, load.path), (.hashStream, load.hashStream), (.byteStream, load.byteStream)]

def UserPayload.held (load : UserPayload) : List Allocation :=
  .userPayload :: arrays [(.usrUsername, load.username), (.usrPasswd, load.passwd)]

def WirePayload.held (request : WirePayload) : List Allocation :=
  .request :: arrays [(.username, request.username), (.passwd, request.passwd)] ++
    match request.payload with
    | .empty => []
    | .std load => load.held
    | .user load => load.held

/-! ## What is freed -/

/-- The union struct. There is no branch for the hash of a file. -/
def destroyUnion (request : WirePayload) : Except Fault (List Allocation) :=
  match request.type with
  | .stdPayload => do
      let load ← request.stdPayload
      return arrays [(.path, load.path), (.byteStream, load.byteStream)] ++ [.stdPayload]
  | .userPayload => do
      let load ← request.userPayload
      return arrays [(.usrUsername, load.username), (.usrPasswd, load.passwd)] ++
        [.userPayload]
  | .noPayload => .ok []

def ctrlDestroy (request : WirePayload) (freeWirePayload : Bool) :
    Except Fault (List Allocation × Option WirePayload) := do
  let freed ← destroyUnion request
  let freed := freed ++ arrays [(.username, request.username), (.passwd, request.passwd)]
  if freeWirePayload then return (freed ++ [.request], none) else return (freed, some {})

/-! ## Tags -/

structure WellTagged (request : WirePayload) : Prop where
  user : request.type = .userPayload ↔ ∃ load, request.payload = .user load
  std : request.type = .stdPayload ↔ ∃ load, request.payload = .std load
  none : request.type = .noPayload ↔ request.payload = .empty

def Released (request : WirePayload) : Prop :=
  ∃ freed, ctrlDestroy request true = .ok (freed, none) ∧ ∀ block ∈ request.held, block ∈ freed

theorem wellTagged_user {request : WirePayload} {load : UserPayload}
    (tagged : request.type = .userPayload) (populated : request.payload = .user load) :
    WellTagged request where
  user := by simp [tagged, populated]
  std := by simp [tagged, populated]
  none := by simp [tagged, populated]

theorem wellTagged_empty {request : WirePayload} (tagged : request.type = .noPayload)
    (populated : request.payload = .empty) : WellTagged request where
  user := by simp [tagged, populated]
  std := by simp [tagged, populated]
  none := by simp [tagged, populated]

theorem released_user {request : WirePayload} {load : UserPayload}
    (tagged : request.type = .userPayload) (populated : request.payload = .user load) :
    Released request := by
  have carried : request.userPayload = .ok load := by
    rw [WirePayload.userPayload, populated]
  refine ⟨_, by simp only [ctrlDestroy, destroyUnion, tagged, carried]; rfl, ?_⟩
  intro block among
  simp only [WirePayload.held, populated, UserPayload.held, List.mem_cons,
    List.mem_append] at among
  simp only [List.mem_append, List.mem_cons, List.not_mem_nil, or_false]
  tauto

theorem released_empty {request : WirePayload} (tagged : request.type = .noPayload)
    (populated : request.payload = .empty) : Released request := by
  refine ⟨_, by simp only [ctrlDestroy, destroyUnion, tagged]; rfl, ?_⟩
  intro block among
  simp only [WirePayload.held, populated, List.append_nil, List.mem_cons] at among
  simp only [List.nil_append, List.mem_append, List.mem_cons, List.not_mem_nil, or_false]
  exact among.symm

theorem not_freed_of_untagged {request : WirePayload} {freed : List Allocation}
    {left : Option WirePayload} {flag : Bool} (untagged : request.type = .noPayload)
    (destroyed : ctrlDestroy request flag = .ok (freed, left)) :
    .stdPayload ∉ freed ∧
      ∀ field ∈ [Field.path, .hashStream, .byteStream], .array field ∉ freed := by
  have credentials : ∀ block ∈ freed,
      block = .request ∨ block = .array .username ∨ block = .array .passwd := by
    have among : ∀ block ∈ arrays [(.username, request.username), (.passwd, request.passwd)],
        block = .array .username ∨ block = .array .passwd := by
      intro block held
      rcases List.mem_map.mp held with ⟨pointer, member, rfl⟩
      rcases List.mem_cons.mp (List.mem_of_mem_filter member) with rfl | second
      · exact .inl rfl
      · rw [List.mem_singleton.mp second]
        exact .inr rfl
    simp only [ctrlDestroy, destroyUnion, untagged, Fallible.ok_bind, List.nil_append]
      at destroyed
    intro block member
    cases flag with
    | true =>
        cases destroyed
        rcases List.mem_append.mp member with held | last
        · exact .inr (among block held)
        · exact .inl (List.mem_singleton.mp last)
    | false =>
        cases destroyed
        exact .inr (among block member)
  constructor
  · intro member
    simpa using credentials _ member
  · intro field fileField member
    rcases credentials _ member with impossible | isName | isPasswd
    · cases impossible
    · cases isName
      simp at fileField
    · cases isPasswd
      simp at fileField

end FileTransfer
