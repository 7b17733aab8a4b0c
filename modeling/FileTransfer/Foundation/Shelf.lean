import FileTransfer.Foundation.Trace

/-! # Shelves
Files in folders, as a user thinks of them: what is stored under a path is there until it is
taken away. A path is a list of names, the innermost first.
-/

namespace Foundation

inductive Entry (Content : Type)
  | file (content : Content)
  | folder

structure Shelf (Name Content : Type) where
  entry : List Name → Option (Entry Content)
  root : entry [] = some .folder
  above : ∀ name path, entry (name :: path) ≠ none → entry path = some .folder

/-- What a user may ask for. To `look` at a shelf is anything that leaves it alone, and
`upkeep` is done on files of the keeper. -/
inductive Ask (Name Content : Type)
  | get (path : List Name)
  | put (name : Name) (path : List Name) (content : Content)
  | mkdir (name : Name) (path : List Name)
  | delete (name : Name) (path : List Name)
  | look
  | upkeep

def Ask.place {Name Content : Type} : Ask Name Content → Option (List Name)
  | .put name path _ | .mkdir name path | .delete name path => some (name :: path)
  | _ => none

def Ask.makes {Name Content : Type} : Ask Name Content → Option (List Name)
  | .mkdir name path => some (name :: path)
  | _ => none

theorem Ask.place_of_makes {Name Content : Type} {ask : Ask Name Content} {path : List Name}
    (makes : ask.makes = some path) : ask.place = some path := by
  cases ask with
  | mkdir name above => exact makes
  | _ => cases makes

def Ask.writes {Name Content : Type} : Ask Name Content → Bool
  | .get _ => false
  | .put _ _ _ => true
  | .mkdir _ _ => true
  | .delete _ _ => true
  | .look => false
  | .upkeep => false

inductive Reply (Content : Type)
  | done
  | content (content : Content)
  | refused

namespace Shelf

variable {Name Content : Type} [DecidableEq Name]

/-! ## Storing and taking away -/

def store (shelf : Shelf Name Content) (name : Name) (path : List Name)
    (stored : Entry Content) (free : shelf.entry (name :: path) = none)
    (folder : shelf.entry path = some .folder) : Shelf Name Content where
  entry := Function.update shelf.entry (name :: path) (some stored)
  root := by
    rw [Function.update_of_ne (List.cons_ne_nil name path).symm]
    exact shelf.root
  above other above present := by
    have folder' : shelf.entry above = some .folder := by
      by_cases same : other :: above = name :: path
      · rw [(List.cons.inj same).2]
        exact folder
      · rw [Function.update_of_ne same] at present
        exact shelf.above other above present
    rw [Function.update_of_ne]
    · exact folder'
    · rintro rfl
      rw [free] at folder'
      cases folder'

def takeAway (shelf : Shelf Name Content) (name : Name) (path : List Name)
    (leaf : ∀ child, shelf.entry (child :: name :: path) = none) : Shelf Name Content where
  entry := Function.update shelf.entry (name :: path) none
  root := by
    rw [Function.update_of_ne (List.cons_ne_nil name path).symm]
    exact shelf.root
  above other above present := by
    by_cases same : other :: above = name :: path
    · rw [same, Function.update_self] at present
      exact absurd rfl present
    · rw [Function.update_of_ne same] at present
      rw [Function.update_of_ne]
      · exact shelf.above other above present
      · rintro rfl
        exact present (leaf other)

section

variable {shelf : Shelf Name Content} {name : Name} {path other : List Name}

theorem entry_store_self (stored : Entry Content) (free : shelf.entry (name :: path) = none)
    (folder : shelf.entry path = some .folder) :
    (shelf.store name path stored free folder).entry (name :: path) = some stored :=
  Function.update_self _ _ _

theorem entry_store_ne (stored : Entry Content) (free : shelf.entry (name :: path) = none)
    (folder : shelf.entry path = some .folder) (different : other ≠ name :: path) :
    (shelf.store name path stored free folder).entry other = shelf.entry other :=
  Function.update_of_ne different _ _

theorem entry_takeAway_self (leaf : ∀ child, shelf.entry (child :: name :: path) = none) :
    (shelf.takeAway name path leaf).entry (name :: path) = none :=
  Function.update_self _ _ _

theorem entry_takeAway_ne (leaf : ∀ child, shelf.entry (child :: name :: path) = none)
    (different : other ≠ name :: path) :
    (shelf.takeAway name path leaf).entry other = shelf.entry other :=
  Function.update_of_ne different _ _

end

/-! ## Requests -/

/-- What becomes of a request, and of the shelf. There is no point in storing `nothing`, and
no way to get it. The keeper's own files are `reserved`. -/
inductive Step (nothing : Content) (reserved : List Name → Prop) (shelf : Shelf Name Content) :
    Ask Name Content → Reply Content → Shelf Name Content → Prop
  | got (path : List Name) (content : Content)
      (found : shelf.entry path = some (.file content)) (some : content ≠ nothing) :
      Step nothing reserved shelf (.get path) (.content content) shelf
  | notGot (path : List Name)
      (missing : ∀ content, shelf.entry path = some (.file content) → content = nothing) :
      Step nothing reserved shelf (.get path) .refused shelf
  | put (name : Name) (path : List Name) (content : Content)
      (free : shelf.entry (name :: path) = none) (folder : shelf.entry path = some .folder)
      (some : content ≠ nothing) :
      Step nothing reserved shelf (.put name path content) .done
        (shelf.store name path (.file content) free folder)
  | notPut (name : Name) (path : List Name) (content : Content)
      (hindered : shelf.entry (name :: path) ≠ none ∨ shelf.entry path ≠ some .folder ∨
        content = nothing) :
      Step nothing reserved shelf (.put name path content) .refused shelf
  | made (name : Name) (path : List Name) (free : shelf.entry (name :: path) = none)
      (folder : shelf.entry path = some .folder) :
      Step nothing reserved shelf (.mkdir name path) .done
        (shelf.store name path .folder free folder)
  | notMade (name : Name) (path : List Name)
      (hindered : shelf.entry (name :: path) ≠ none ∨ shelf.entry path ≠ some .folder) :
      Step nothing reserved shelf (.mkdir name path) .refused shelf
  | deleted (name : Name) (path : List Name) (present : shelf.entry (name :: path) ≠ none)
      (leaf : ∀ child, shelf.entry (child :: name :: path) = none) :
      Step nothing reserved shelf (.delete name path) .done (shelf.takeAway name path leaf)
  | notDeleted (name : Name) (path : List Name)
      (hindered : shelf.entry (name :: path) = none ∨
        ∃ child, shelf.entry (child :: name :: path) ≠ none) :
      Step nothing reserved shelf (.delete name path) .refused shelf
  | looked (reply : Reply Content) (bare : ∀ content, reply ≠ .content content) :
      Step nothing reserved shelf .look reply shelf
  | upkept (reply : Reply Content) (after : Shelf Name Content)
      (bare : ∀ content, reply ≠ .content content)
      (others : ∀ path, ¬ reserved path → after.entry path = shelf.entry path) :
      Step nothing reserved shelf .upkeep reply after

/-- Requests of users who may be entitled to them or not. A request can get lost on its way,
and then nothing becomes of it. -/
inductive Served (nothing : Content) (reserved : List Name → Prop) (shelf : Shelf Name Content) :
    Ask Name Content × Bool → Option (Reply Content) → Shelf Name Content → Prop
  | lost (request : Ask Name Content × Bool) : Served nothing reserved shelf request none shelf
  | denied (ask : Ask Name Content) :
      Served nothing reserved shelf (ask, false) (some .refused) shelf
  | carriedOut {ask : Ask Name Content} {reply : Reply Content} {after : Shelf Name Content}
      (step : Step nothing reserved shelf ask reply after) :
      Served nothing reserved shelf (ask, true) (some reply) after

/-! ## What is kept -/

variable {nothing : Content} {reserved : List Name → Prop} {shelf after : Shelf Name Content}

theorem Step.elsewhere {ask : Ask Name Content} {reply : Reply Content}
    (step : Step nothing reserved shelf ask reply after) {path : List Name}
    (unreserved : ¬ reserved path) (away : ask.place ≠ some path) :
    after.entry path = shelf.entry path := by
  cases step with
  | put name above content free folder some =>
      apply entry_store_ne
      rintro rfl
      exact away rfl
  | made name above free folder =>
      apply entry_store_ne
      rintro rfl
      exact away rfl
  | deleted name above present leaf =>
      apply entry_takeAway_ne
      rintro rfl
      exact away rfl
  | upkept reply after bare others => exact others path unreserved
  | _ => rfl

theorem Step.frame {ask : Ask Name Content} {reply : Reply Content}
    (step : Step nothing reserved shelf ask reply after) {path : List Name}
    (unreserved : ¬ reserved path) (present : shelf.entry path ≠ none)
    (spared : ∀ name above, path = name :: above → reply = .done → ask ≠ .delete name above) :
    after.entry path = shelf.entry path := by
  cases step with
  | put name above content free folder some =>
      apply entry_store_ne
      rintro rfl
      exact present free
  | made name above free folder =>
      apply entry_store_ne
      rintro rfl
      exact present free
  | deleted name above present' leaf =>
      apply entry_takeAway_ne
      rintro rfl
      exact spared name above rfl rfl rfl
  | upkept reply after bare others => exact others path unreserved
  | _ => rfl

def NoFolder (makes : List Name → Prop) (shelf : Shelf Name Content) (path : List Name) : Prop :=
  shelf.entry path ≠ some .folder ∧ (shelf.entry path = none → ¬ makes path)

theorem Step.noFolder {ask : Ask Name Content} {reply : Reply Content}
    {makes : List Name → Prop} {path : List Name}
    (step : Step nothing reserved shelf ask reply after) (unreserved : ¬ reserved path)
    (noFolder : NoFolder makes shelf path) (own : ask.makes = some path → makes path)
    (alone : ask.place = some path → ask.makes = none → ¬ makes path) :
    NoFolder makes after path := by
  by_cases away : ask.place = some path
  · cases step with
    | put name above content free folder some =>
        cases away
        simp [NoFolder, entry_store_self]
    | made name above free folder =>
        cases away
        exact absurd (own rfl) (noFolder.2 free)
    | deleted name above present leaf =>
        cases away
        refine ⟨?_, fun _ => alone rfl rfl⟩
        simp [entry_takeAway_self]
    | upkept reply after bare others => cases away
    | _ => exact noFolder
  · rw [NoFolder, step.elsewhere unreserved away]
    exact noFolder

theorem Served.frame {request : Ask Name Content × Bool} {reply : Option (Reply Content)}
    (served : Served nothing reserved shelf request reply after) {path : List Name}
    (unreserved : ¬ reserved path) (present : shelf.entry path ≠ none)
    (spared : ∀ name above, path = name :: above → reply = some .done →
      request.1 ≠ .delete name above) :
    after.entry path = shelf.entry path := by
  cases served with
  | lost => rfl
  | denied => rfl
  | carriedOut step =>
      apply step.frame unreserved present
      intro name above same isDone
      exact spared name above same (congrArg some isDone)

theorem Served.granted_of_content {request : Ask Name Content × Bool} {content : Content}
    (served : Served nothing reserved shelf request (some (.content content)) after) :
    request.2 = true := by
  cases served
  rfl

theorem Served.ne_done_of_get {path : List Name} {granted : Bool}
    {reply : Option (Reply Content)}
    (served : Served nothing reserved shelf (.get path, granted) reply after) :
    reply ≠ some .done := by
  rintro rfl
  rcases served with _ | _ | step
  cases step

/-- What is stored stays as it is until it is deleted. -/
theorem run_keeps {requests : List (Ask Name Content × Bool)}
    {replies : List (Option (Reply Content))}
    (run : Trace (Served nothing reserved) shelf requests replies after) {path : List Name}
    (unreserved : ¬ reserved path) {stored : Entry Content} (there : shelf.entry path = some stored)
    (spared : ∀ name above, path = name :: above → ∀ served ∈ requests.zip replies,
      served.2 = some .done → served.1.1 ≠ .delete name above) :
    after.entry path = some stored := by
  induction run with
  | nil => exact there
  | cons served _ induction =>
      have kept := served.frame unreserved (by simp [there] : _ ≠ none) fun name above same =>
        spared name above same _ List.mem_cons_self
      refine induction (kept.trans there) ?_
      intro name above same served' member
      exact spared name above same served' (List.mem_cons_of_mem _ member)

theorem got_of_put {middle late final : Shelf Name Content} {name : Name} {path : List Name}
    {content : Content} {granted : Bool} {reply : Reply Content}
    (stored : Served nothing reserved shelf (.put name path content, granted) (some .done) middle)
    (unreserved : ¬ reserved (name :: path))
    {requests : List (Ask Name Content × Bool)} {replies : List (Option (Reply Content))}
    (run : Trace (Served nothing reserved) middle requests replies late)
    (spared : ∀ served ∈ requests.zip replies,
      served.2 = some .done → served.1.1 ≠ .delete name path)
    (asked : Served nothing reserved late (.get (name :: path), true) (some reply) final) :
    reply = .content content := by
  rcases stored with _ | _ | stored
  cases stored with
  | put name path content free folder isSome =>
      have kept := run_keeps run unreserved (entry_store_self _ free folder) (by
        intro name' above same served member isDone
        cases same
        exact spared served member isDone)
      rcases asked with _ | _ | asked
      cases asked with
      | got path content' found isSome' =>
          cases kept.symm.trans found
          rfl
      | notGot path missing => exact absurd (missing content kept) isSome

end Shelf

end Foundation
