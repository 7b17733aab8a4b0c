import FileTransfer.Posix.Resolution

/-! # Resolving a path part by part

A resolution that leads to a node can go on from there, with the links that are
left. That relates what a whole path denotes to its directory part and its last
component.
-/

namespace Posix

open Foundation

namespace FileTree

/-! ## One component -/

inductive Lookup
  | moves (next : Location)
  | missing (place : Location)
  | link (name : Name) (text : Bytes)
  | fails (code : Errno)

def lookup (tree : FileTree) (current : Location) (component : Component) : Lookup :=
  if tree.get current ≠ some .dir then .fails .notDir
  else
    match component with
    | .here => .moves current
    | .up => .moves current.tail
    | .unusable => .fails .nameTooLong
    | .name name =>
        match tree.get (name :: current) with
        | none => .missing (name :: current)
        | some (.link text) => .link name text
        | some _ => .moves (name :: current)

variable {tree : FileTree}

theorem walkFrom_cons (followLast : Bool)
    (jump : Location → List Component → Except Errno Target) (current : Location)
    (component : Component) (rest : List Component) :
    tree.walkFrom followLast jump current (component :: rest) =
      match tree.lookup current component with
      | .moves next => tree.walkFrom followLast jump next rest
      | .missing place => if rest = [] then .ok (.slot place) else .error .noEntry
      | .link name text =>
          if rest = [] ∧ followLast = false then .ok (.node (name :: current))
          else if text = [] then .error .noEntry
          else jump (if isAbsolute text then [] else current) (components text ++ rest)
      | .fails code => .error code := by
  simp only [walkFrom, lookup]
  by_cases isDir : tree.get current = some .dir
  · simp only [isDir, ne_eq, not_true, if_false]
    cases component with
    | name name =>
        cases found : tree.get (name :: current) with
        | none => simp only [found]
        | some node => cases node <;> simp only [found]
    | here | up | unusable => rfl
  · simp only [ne_eq, isDir, not_false_eq_true, if_true]

/-! ## More links -/

theorem walkFrom_mono {followLast : Bool}
    {jump jump' : Location → List Component → Except Errno Target}
    (jumps : ∀ start path target, jump start path = .ok target →
      jump' start path = .ok target)
    {path : List Component} {current : Location} {target : Target}
    (reached : tree.walkFrom followLast jump current path = .ok target) :
    tree.walkFrom followLast jump' current path = .ok target := by
  induction path generalizing current with
  | nil => exact reached
  | cons component rest induction =>
      rw [walkFrom_cons] at reached ⊢
      cases found : tree.lookup current component with
      | moves next =>
          simp only [found] at reached
          exact induction reached
      | missing place => simpa only [found] using reached
      | fails code => simp [found] at reached
      | link name text =>
          simp only [found] at reached ⊢
          by_cases kept : rest = [] ∧ followLast = false
          · simpa only [if_pos kept] using reached
          · rw [if_neg kept] at reached ⊢
            by_cases empty : text = []
            · simp [empty] at reached
            · rw [if_neg empty] at reached ⊢
              exact jumps _ _ _ reached

theorem walk_mono {followLast : Bool} {links more : Nat} (enough : links ≤ more)
    {current : Location} {path : List Component} {target : Target}
    (reached : tree.walk followLast links current path = .ok target) :
    tree.walk followLast more current path = .ok target := by
  induction links generalizing more current path target with
  | zero =>
      have jumps : ∀ (jump' : Location → List Component → Except Errno Target)
          (start : Location) (path : List Component) (target : Target),
          (.error .loop : Except Errno Target) = .ok target →
            jump' start path = .ok target :=
        fun _ _ _ _ looped => nomatch looped
      cases more with
      | zero => exact reached
      | succ more => exact walkFrom_mono (jumps _) reached
  | succ links induction =>
      cases more with
      | zero => omega
      | succ more =>
          exact walkFrom_mono
            (fun start path target => induction (Nat.le_of_succ_le_succ enough)) reached

/-! ## Going on -/

/-- A resolution of the first part of a path is one of the whole up to there. It may
have gone through a link, and then fewer are left. -/
theorem walkFrom_append {jump : Location → List Component → Except Errno Target}
    {bound : Nat}
    (jumps : ∀ start path above, jump start path = .ok (.node above) →
      ∃ left ≤ bound, ∀ rest, jump start (path ++ rest) = tree.walk true left above rest)
    {path : List Component} {current above : Location}
    (reached : tree.walkFrom true jump current path = .ok (.node above)) :
    (∃ left ≤ bound, ∀ rest,
        tree.walkFrom true jump current (path ++ rest) = tree.walk true left above rest) ∨
      ∀ rest, tree.walkFrom true jump current (path ++ rest) =
        tree.walkFrom true jump above rest := by
  induction path generalizing current with
  | nil =>
      cases reached
      exact .inr fun rest => rfl
  | cons component path induction =>
      rw [walkFrom_cons] at reached
      simp only [List.cons_append, walkFrom_cons]
      cases found : tree.lookup current component with
      | moves next =>
          simp only [found] at reached
          exact induction reached
      | missing place =>
          simp only [found] at reached
          split at reached <;> cases reached
      | fails code => simp [found] at reached
      | link name text =>
          simp only [found, Bool.true_eq_false, and_false, if_false] at reached ⊢
          by_cases empty : text = []
          · simp [empty] at reached
          · rw [if_neg empty] at reached
            rcases jumps _ _ _ reached with ⟨left, fewer, onwards⟩
            refine .inl ⟨left, fewer, fun rest => ?_⟩
            rw [if_neg empty, ← onwards rest, List.append_assoc]

theorem walk_append {links : Nat} {current above : Location} {path : List Component}
    (reached : tree.walk true links current path = .ok (.node above)) :
    ∃ left ≤ links, ∀ rest,
      tree.walk true links current (path ++ rest) = tree.walk true left above rest := by
  induction links generalizing current above path with
  | zero =>
      have jumps : ∀ (start : Location) (path : List Component) (above : Location),
          (.error .loop : Except Errno Target) = .ok (.node above) →
            ∃ left ≤ 0, ∀ rest : List Component,
              (.error .loop : Except Errno Target) = tree.walk true left above rest :=
        fun _ _ _ looped => nomatch looped
      rcases walkFrom_append jumps reached with jumped | onwards
      · exact jumped
      · exact ⟨0, le_rfl, onwards⟩
  | succ links induction =>
      rcases walkFrom_append (fun _ _ _ => induction) reached with
        ⟨left, fewer, onwards⟩ | onwards
      · exact ⟨left, by omega, onwards⟩
      · exact ⟨links + 1, le_rfl, onwards⟩

theorem walkFrom_stops {jump : Location → List Component → Except Errno Target}
    (jumps : ∀ start path, (∀ above, jump start path ≠ .ok (.node above)) →
      ∀ next rest target, jump start (path ++ next :: rest) ≠ .ok target)
    {path : List Component} {current : Location}
    (stops : ∀ above, tree.walkFrom true jump current path ≠ .ok (.node above))
    (next : Component) (rest : List Component) (target : Target) :
    tree.walkFrom true jump current (path ++ next :: rest) ≠ .ok target := by
  induction path generalizing current with
  | nil => exact absurd rfl (stops current)
  | cons component path induction =>
      simp only [walkFrom_cons] at stops
      rw [List.cons_append, walkFrom_cons]
      cases found : tree.lookup current component with
      | moves next =>
          simp only [found] at stops
          exact induction stops
      | missing place => simp
      | fails code => simp
      | link name text =>
          simp only [found, Bool.true_eq_false, and_false, if_false] at stops ⊢
          by_cases empty : text = []
          · simp [empty]
          · simp only [if_neg empty] at stops ⊢
            rw [← List.append_assoc]
            exact jumps _ _ stops next rest target

theorem walk_stops {links : Nat} {current : Location} {path : List Component}
    (stops : ∀ above, tree.walk true links current path ≠ .ok (.node above))
    (next : Component) (rest : List Component) (target : Target) :
    tree.walk true links current (path ++ next :: rest) ≠ .ok target := by
  induction links generalizing current path next rest target with
  | zero =>
      apply walkFrom_stops _ stops next rest target
      intro start path _ next rest target looped
      cases looped
  | succ links induction =>
      exact walkFrom_stops (fun _ _ stops => induction stops) stops next rest target

theorem walk_behind_slot {links : Nat} {current place : Location} {path : List Component}
    (reached : tree.walk true links current path = .ok (.slot place)) (next : Component)
    (rest : List Component) (target : Target) :
    tree.walk true links current (path ++ next :: rest) ≠ .ok target := by
  apply walk_stops
  intro above isNode
  rw [reached] at isNode
  cases isNode

theorem walk_split {links : Nat} {current : Location} {path : List Component}
    {next : Component} {rest : List Component} {target : Target}
    (reached : tree.walk true links current (path ++ next :: rest) = .ok target) :
    ∃ above, tree.walk true links current path = .ok (.node above) ∧
      tree.walk true links above (next :: rest) = .ok target := by
  by_contra stops
  apply walk_stops _ next rest target reached
  intro above isNode
  rcases walk_append isNode with ⟨left, fewer, onwards⟩
  rw [onwards] at reached
  exact stops ⟨above, isNode, walk_mono fewer reached⟩

end FileTree

/-! ## Directory part and last component -/

theorem components_slashes (count : Nat) (rest : Bytes) :
    components (List.replicate count slash ++ rest) =
      List.replicate count .here ++ components rest := by
  induction count with
  | zero => rfl
  | succ count induction =>
      have first : components (slash :: (List.replicate count slash ++ rest)) =
          components [] ++ components (List.replicate count slash ++ rest) :=
        components_append_slash [] _
      rw [List.replicate_succ, List.cons_append, first, induction]
      rfl

theorem components_name_slashes (name : Name) (behind : Nat) :
    components (name.bytes ++ List.replicate behind slash) =
      .name name :: List.replicate behind .here := by
  cases behind with
  | zero => simp [components_of_not_mem name.noSlash]
  | succ behind =>
      have trailing := components_slashes behind []
      rw [List.append_nil] at trailing
      rw [List.replicate_succ, components_append_slash, components_of_not_mem name.noSlash,
        Component.ofBytes_name, trailing, components_of_not_mem (by simp),
        List.singleton_append, List.replicate_succ']
      rfl

inductive EndsIn (path : Bytes) (name : Name) (between behind : Nat) : Prop
  | below (deep : dirname path ≠ [])
      (spelled : path = dirname path ++ slash :: (List.replicate between slash ++
        (name.bytes ++ List.replicate behind slash)))
  | atTop (top : dirname path = dot ∨ dirname path = [slash])
      (spelled : path = List.replicate between slash ++
        (name.bytes ++ List.replicate behind slash))

theorem rdropWhile_slashes (path : Bytes) :
    ∃ behind, path = path.rdropWhile (· = slash) ++ List.replicate behind slash := by
  refine ⟨(path.rtakeWhile (· = slash)).length, ?_⟩
  have slashes : path.rtakeWhile (· = slash) =
      List.replicate (path.rtakeWhile (· = slash)).length slash := by
    rw [List.eq_replicate_iff]
    exact ⟨rfl, fun byte member => by simpa using List.mem_rtakeWhile_imp member⟩
  rw [← slashes, List.rdropWhile_append_rtakeWhile]

theorem endsIn_of_basename {path : Bytes} {name : Name} (last : basename path = name.bytes) :
    ∃ between behind, EndsIn path name between behind := by
  have notSlash : [slash] ≠ name.bytes := fun same => name.noSlash (by simp [← same])
  rcases rdropWhile_slashes path with ⟨behind, whole⟩
  rcases rdropWhile_slashes ((path.rdropWhile (· = slash)).rdropWhile (· ≠ slash)) with
    ⟨between, above⟩
  have directory : dirname path = if path = [] then dot else _ := rfl
  simp only [basename] at last
  split at last
  · exact absurd last.symm name.valid.2.2.2.1
  rename_i nonempty
  split at last
  · exact absurd last notSlash
  rename_i someName
  rw [if_neg nonempty, if_neg someName] at directory
  have parted : (path.rdropWhile (· = slash)).rdropWhile (· ≠ slash) ++ name.bytes =
      path.rdropWhile (· = slash) := by
    rw [← last]
    exact List.rdropWhile_append_rtakeWhile
  have endsInSlash : ∀ some :
      (path.rdropWhile (· = slash)).rdropWhile (· ≠ slash) ≠ [],
      ((path.rdropWhile (· = slash)).rdropWhile (· ≠ slash)).getLast some = slash :=
    fun some => by simpa using List.rdropWhile_last_not (· ≠ slash) _ some
  generalize path.rdropWhile (· = slash) = trimmed at *
  generalize trimmed.rdropWhile (· ≠ slash) = parent at *
  rw [← parted, List.append_assoc] at whole
  by_cases isTop : parent = []
  · refine ⟨0, behind, .atTop (.inl ?_) ?_⟩
    · rw [directory, if_pos isTop]
    · rw [whole, isTop]
      rfl
  · rw [if_neg isTop] at directory
    by_cases isRoot : parent.rdropWhile (· = slash) = []
    · refine ⟨between, behind, .atTop (.inr ?_) ?_⟩
      · rw [directory, if_pos isRoot]
      · rw [whole, above, isRoot]
        rfl
    · rw [if_neg isRoot] at directory
      cases between with
      | zero =>
          -- What is left of the directory part when its slashes are gone does not end
          -- in one, so there was one to take.
          rw [List.replicate_zero, List.append_nil] at above
          exact absurd (endsInSlash isTop)
            (by simpa using List.rdropWhile_eq_self_iff.mp above.symm isTop)
      | succ between =>
          refine ⟨between, behind, .below (by rwa [directory]) ?_⟩
          rw [directory, whole]
          nth_rewrite 1 [above]
          rw [List.append_assoc, List.replicate_succ, List.cons_append]

namespace EndsIn

variable {path : Bytes} {name : Name} {between behind : Nat}

theorem suffix (ends : EndsIn path name between behind) :
    name.bytes ++ List.replicate behind slash <:+ path := by
  cases ends with
  | below deep spelled =>
      rw [spelled]
      exact ((List.suffix_append _ _).trans (List.suffix_cons _ _)).trans
        (List.suffix_append _ _)
  | atTop top spelled =>
      rw [spelled]
      exact List.suffix_append _ _

theorem trailing_iff (ends : EndsIn path name between behind) :
    path.getLast? = some slash ↔ behind ≠ 0 := by
  rcases ends.suffix with ⟨front, whole⟩
  rw [← whole]
  cases behind with
  | zero =>
      have last : (front ++ (name.bytes ++ List.replicate 0 slash)).getLast? =
          name.bytes.getLast? := by
        rw [List.replicate_zero, List.append_nil, List.getLast?_append_of_ne_nil _ name.valid.1]
      rw [last]
      simp only [ne_eq, not_true, iff_false]
      exact fun isSlash => name.noSlash (List.mem_of_getLast? isSlash)
  | succ behind =>
      rw [List.replicate_succ', ← List.append_assoc, ← List.append_assoc, List.getLast?_concat]
      simp

theorem dirname_length_le (ends : EndsIn path name between behind) :
    (dirname path).length ≤ path.length := by
  cases ends with
  | below deep spelled =>
      have counted := congrArg List.length spelled
      rw [List.length_append] at counted
      omega
  | atTop top spelled =>
      have named := List.length_pos_iff.mpr name.valid.1
      have counted := congrArg List.length spelled
      simp only [List.length_append, List.length_replicate] at counted
      rcases top with isTop | isTop
      · rw [isTop, show dot.length = 1 from rfl]
        omega
      · rw [isTop, List.length_singleton]
        omega

end EndsIn

end Posix
