import FileTransfer.Foundation.ByteString

/-! # Pathnames

The spelling of paths as POSIX reads it: components, `dirname`, `basename`, and
the canonical spelling of a location in a tree.
-/

namespace Posix

open Foundation

def slash : UInt8 := 47

def dot : Bytes := ascii "."

def dotDot : Bytes := ascii ".."

def nameMax : Nat := 255

/-- Size of a buffer that holds any path and its terminator. -/
def pathMax : Nat := 4096

/-! ## Names and locations -/

def NameValid (bytes : Bytes) : Prop :=
  bytes ≠ [] ∧ slash ∉ bytes ∧ (0 : UInt8) ∉ bytes ∧ bytes ≠ dot ∧
    bytes ≠ dotDot ∧ bytes.length ≤ nameMax

instance (bytes : Bytes) : Decidable (NameValid bytes) := by
  unfold NameValid
  infer_instance

structure Name where
  bytes : Bytes
  valid : NameValid bytes
deriving DecidableEq

@[ext] theorem Name.ext {left right : Name} (equal : left.bytes = right.bytes) :
    left = right := by
  cases left
  cases right
  simpa using equal

theorem Name.noSlash (name : Name) : slash ∉ name.bytes := name.valid.2.1

/-- A place in a tree, innermost name first: `name :: location` is the entry
`name` of the directory at `location`, and `[]` is the root. -/
abbrev Location := List Name

def AtOrBelow (directory location : Location) : Prop := directory <:+ location

def StrictlyBelow (directory location : Location) : Prop :=
  directory <:+ location ∧ location ≠ directory

instance (directory location : Location) :
    Decidable (AtOrBelow directory location) := by
  unfold AtOrBelow
  infer_instance

instance (directory location : Location) :
    Decidable (StrictlyBelow directory location) := by
  unfold StrictlyBelow
  infer_instance

theorem StrictlyBelow.atOrBelow {directory location : Location}
    (below : StrictlyBelow directory location) : AtOrBelow directory location :=
  below.1

theorem AtOrBelow.strictlyBelow_cons {directory location : Location}
    (within : AtOrBelow directory location) (name : Name) :
    StrictlyBelow directory (name :: location) := by
  refine ⟨within.trans (List.suffix_cons name location), fun equal => ?_⟩
  have shorter := within.length_le
  rw [← equal] at shorter
  simp at shorter

def spell : List Name → Bytes
  | [] => []
  | name :: rest => slash :: (name.bytes ++ spell rest)

def render (location : Location) : Bytes :=
  if location = [] then [slash] else spell location.reverse

theorem render_of_ne_nil {location : Location} (nonempty : location ≠ []) :
    render location = spell location.reverse := by
  simp [render, nonempty]

theorem spell_append (front back : List Name) :
    spell (front ++ back) = spell front ++ spell back := by
  induction front with
  | nil => rfl
  | cons name rest induction => simp [spell, induction]

/-! ## Comparing spellings byte by byte

A byte prefix of a canonical path need not stop at a slash. These lemmas say
what is left of the prefix relation when it does not.
-/

theorem prefix_of_prefix_append_spell {bytes other : Bytes} {names : List Name}
    (noSlash : slash ∉ bytes) (isPrefix : bytes <+: other ++ spell names) :
    bytes <+: other := by
  rcases List.prefix_or_prefix_of_prefix isPrefix (List.prefix_append _ _) with
    inside | ⟨beyond, rfl⟩
  · exact inside
  · have later := (List.prefix_append_right_inj other).mp isPrefix
    cases names with
    | nil => simp only [spell, List.prefix_nil] at later; simp [later]
    | cons name rest =>
        cases beyond with
        | nil => simp
        | cons byte beyond =>
            rw [spell, List.cons_prefix_cons] at later
            exact absurd (by simp [later.1]) noSlash

theorem name_prefix_spell {name other : Name} {text : Bytes} {names : List Name}
    (isPrefix : name.bytes ++ slash :: text <+: other.bytes ++ spell names) :
    name = other ∧ slash :: text <+: spell names := by
  have front : name.bytes <+: other.bytes :=
    prefix_of_prefix_append_spell name.noSlash
      ((List.prefix_append _ _).trans isPrefix)
  rcases front with ⟨extra, split⟩
  cases extra with
  | nil =>
      have same : name = other := Name.ext (by simpa using split)
      subst same
      exact ⟨rfl, (List.prefix_append_right_inj _).mp isPrefix⟩
  | cons byte extra =>
      rw [← split, List.append_assoc, List.prefix_append_right_inj,
        List.cons_append, List.cons_prefix_cons] at isPrefix
      exact absurd (by simp [← split, isPrefix.1]) other.noSlash

theorem spell_prefix_spell_iff (front : List Name) (last : Name)
    (names : List Name) :
    spell (front ++ [last]) <+: spell names ↔
      ∃ other rest, names = front ++ other :: rest ∧ last.bytes <+: other.bytes := by
  constructor
  · intro isPrefix
    induction front generalizing names with
    | nil =>
        cases names with
        | nil => simp [spell] at isPrefix
        | cons other rest =>
            simp only [List.nil_append, spell, List.append_nil,
              List.cons_prefix_cons, true_and] at isPrefix
            exact ⟨other, rest, rfl,
              prefix_of_prefix_append_spell last.noSlash isPrefix⟩
    | cons name front induction =>
        cases names with
        | nil => simp [spell] at isPrefix
        | cons other rest =>
            simp only [List.cons_append, spell, List.cons_prefix_cons,
              true_and] at isPrefix
            rcases spellHead : spell (front ++ [last]) with _ | ⟨byte, text⟩
            · cases front <;> simp [spell] at spellHead
            · have headSlash : byte = slash := by
                cases front <;> simp [spell] at spellHead <;> exact spellHead.1.symm
              rw [spellHead, headSlash] at isPrefix
              rcases name_prefix_spell isPrefix with ⟨rfl, deeper⟩
              rw [← headSlash, ← spellHead] at deeper
              rcases induction rest deeper with ⟨found, tail, rfl, within⟩
              exact ⟨found, tail, rfl, within⟩
  · rintro ⟨other, rest, rfl, within⟩
    rw [spell_append, spell_append, List.prefix_append_right_inj]
    simp only [spell, List.append_nil, List.cons_prefix_cons, true_and]
    exact within.trans (List.prefix_append _ _)

theorem spell_injective : Function.Injective spell := by
  intro left
  induction left with
  | nil =>
      intro right equal
      cases right with
      | nil => rfl
      | cons name rest => simp [spell] at equal
  | cons name rest induction =>
      intro right equal
      cases right with
      | nil => simp [spell] at equal
      | cons other rest' =>
          simp only [spell, List.cons.injEq, true_and] at equal
          have forward : name.bytes <+: other.bytes :=
            prefix_of_prefix_append_spell name.noSlash
              (equal ▸ List.prefix_append name.bytes (spell rest))
          have backward : other.bytes <+: name.bytes :=
            prefix_of_prefix_append_spell other.noSlash
              (equal.symm ▸ List.prefix_append other.bytes (spell rest'))
          have same : name = other :=
            Name.ext (forward.eq_of_length (le_antisymm forward.length_le
              backward.length_le))
          subst same
          rw [induction (List.append_cancel_left equal)]

theorem render_injective : Function.Injective render := by
  intro left right equal
  have rootOnly : ∀ names : List Name, names ≠ [] → spell names ≠ [slash] := by
    intro names nonempty
    cases names with
    | nil => exact absurd rfl nonempty
    | cons name rest =>
        have positive : name.bytes ≠ [] := name.valid.1
        simp [spell, positive]
  by_cases leftRoot : left = [] <;> by_cases rightRoot : right = []
  · rw [leftRoot, rightRoot]
  · rw [leftRoot, render_of_ne_nil rightRoot] at equal
    exact absurd equal.symm (rootOnly _ (by simpa using rightRoot))
  · rw [rightRoot, render_of_ne_nil leftRoot] at equal
    exact absurd equal (rootOnly _ (by simpa using leftRoot))
  · rw [render_of_ne_nil leftRoot, render_of_ne_nil rightRoot] at equal
    exact List.reverse_injective (spell_injective equal)

def Name.Extends (other name : Name) : Prop :=
  name.bytes <+: other.bytes ∧ other ≠ name

instance (other name : Name) : Decidable (other.Extends name) := by
  unfold Name.Extends
  infer_instance

/-- The canonical path of a directory is a byte prefix of that of a location
exactly when the location is within the directory, or within a sibling whose
name extends the directory's. -/
theorem render_prefix_render_iff (name : Name) (parent location : Location) :
    render (name :: parent) <+: render location ↔
      AtOrBelow (name :: parent) location ∨
        ∃ other, other.Extends name ∧ AtOrBelow (other :: parent) location := by
  by_cases isRoot : location = []
  · subst isRoot
    have nonempty : name.bytes ≠ [] := name.valid.1
    constructor
    · intro isPrefix
      rw [render_of_ne_nil (by simp), List.reverse_cons, spell_append] at isPrefix
      have short := isPrefix.length_le
      have positive := List.length_pos_iff.mpr nonempty
      simp only [spell, List.append_nil, List.length_append, List.length_cons,
        render, if_true, List.length_nil] at short
      omega
    · rintro (within | ⟨other, _, within⟩) <;> simp [AtOrBelow] at within
  · rw [render_of_ne_nil (by simp), render_of_ne_nil isRoot, List.reverse_cons,
      spell_prefix_spell_iff]
    constructor
    · rintro ⟨other, rest, split, within⟩
      have place : location = rest.reverse ++ other :: parent := by
        rw [← List.reverse_reverse location, split]
        simp
      by_cases same : other = name
      · subst same
        exact .inl ⟨rest.reverse, place.symm⟩
      · exact .inr ⟨other, ⟨within, same⟩, rest.reverse, place.symm⟩
    · rintro (⟨rest, rfl⟩ | ⟨other, extended, rest, rfl⟩)
      · exact ⟨name, rest.reverse, by simp, List.prefix_refl _⟩
      · exact ⟨other, rest.reverse, by simp, extended.1⟩

theorem AtOrBelow.render_prefix {directory location : Location}
    (within : AtOrBelow directory location) : render directory <+: render location := by
  cases directory with
  | nil =>
      by_cases isRoot : location = []
      · rw [isRoot]
      · rcases List.exists_cons_of_ne_nil (mt List.reverse_eq_nil_iff.mp isRoot) with
          ⟨name, rest, spelled⟩
        rw [render_of_ne_nil isRoot, spelled, spell]
        exact List.prefix_append [slash] _
  | cons name parent => exact (render_prefix_render_iff name parent location).mpr (.inl within)

theorem render_cons {directory : Location} (notRoot : directory ≠ []) (name : Name) :
    render (name :: directory) = render directory ++ slash :: name.bytes := by
  rw [render_of_ne_nil (by simp), render_of_ne_nil notRoot, List.reverse_cons, spell_append]
  simp [spell]

/-- In the root, joining a name to the canonical path doubles the slash, and no
canonical path but the root's is a byte prefix of the result. -/
theorem not_render_prefix_root (name other : Name) (parent : Location) :
    ¬ render (name :: parent) <+: render [] ++ slash :: other.bytes := by
  intro isPrefix
  rw [render_of_ne_nil (by simp)] at isPrefix
  have nonempty : (name :: parent).reverse ≠ [] := by simp
  rcases List.exists_cons_of_ne_nil nonempty with ⟨first, names, spelled⟩
  rcases bytes : first.bytes with _ | ⟨byte, rest⟩
  · exact first.valid.1 bytes
  · simp only [spelled, spell, render, if_true, bytes, List.cons_append, List.nil_append,
      List.cons_prefix_cons, true_and] at isPrefix
    exact first.noSlash (by simp [bytes, isPrefix.1])

/-- With a slash added, the canonical path of a directory is a byte prefix of those
of the places strictly below it only. -/
theorem render_slash_prefix_iff (name : Name) (parent location : Location) :
    render (name :: parent) ++ [slash] <+: render location ↔
      StrictlyBelow (name :: parent) location := by
  have spelled : render (name :: parent) = spell parent.reverse ++ slash :: name.bytes := by
    simp [render_of_ne_nil, spell_append, spell]
  constructor
  · intro isPrefix
    have shorter := (List.prefix_append _ _).trans isPrefix
    have longer := isPrefix.length_le
    have proper : location ≠ name :: parent := by
      rintro rfl
      simp at longer
    refine ⟨?_, proper⟩
    rcases (render_prefix_render_iff name parent location).mp shorter with
      within | ⟨other, extended, rest, rfl⟩
    · exact within
    · rw [spelled, render_of_ne_nil (by simp), List.reverse_append, List.reverse_cons,
        List.append_assoc, spell_append, spell_append, List.append_assoc,
        List.prefix_append_right_inj] at isPrefix
      simp only [List.cons_append, List.append_nil, spell, List.cons_prefix_cons,
        true_and] at isPrefix
      exact absurd (name_prefix_spell isPrefix).1 extended.2.symm
  · rintro ⟨⟨rest, rfl⟩, proper⟩
    cases rest using List.reverseRecOn with
    | nil => exact absurd rfl proper
    | append_singleton rest next =>
        rw [spelled, render_of_ne_nil (by simp)]
        simp [spell_append, spell]

theorem not_atOrBelow_sibling {name other : Name} {parent location : Location}
    (different : other ≠ name) (within : AtOrBelow (name :: parent) location) :
    ¬ AtOrBelow (other :: parent) location := by
  intro within'
  rcases List.suffix_or_suffix_of_suffix within within' with inside | inside <;>
    have same := inside.eq_of_length (by simp) <;> simp_all

/-! ## Components -/

/-- One step of a path. A component that no entry can be called is kept as
`unusable`: looking it up fails. -/
inductive Component
  | here
  | up
  | name (name : Name)
  | unusable
deriving DecidableEq

def Component.ofBytes (bytes : Bytes) : Component :=
  if bytes = [] ∨ bytes = dot then .here
  else if bytes = dotDot then .up
  else if valid : NameValid bytes then .name ⟨bytes, valid⟩
  else .unusable

@[simp] theorem Component.ofBytes_name (name : Name) :
    Component.ofBytes name.bytes = .name name := by
  have valid := name.valid
  simp [Component.ofBytes, valid, valid.1, valid.2.2.2.1, valid.2.2.2.2.1]

theorem Component.bytes_of_ofBytes {bytes : Bytes} {name : Name}
    (named : Component.ofBytes bytes = .name name) : bytes = name.bytes := by
  simp only [ofBytes] at named
  split at named
  · cases named
  · split at named
    · cases named
    · split at named <;> cases named
      rfl

def components (path : Bytes) : List Component :=
  (path.splitOn slash).map Component.ofBytes

example : components (ascii "/a//../") =
    [.here, .name ⟨ascii "a", by decide⟩, .here, .up, .here] := by decide

theorem components_append_slash (front back : Bytes) :
    components (front ++ slash :: back) = components front ++ components back := by
  simp [components, List.splitOn_append_cons_self]

theorem components_of_not_mem {path : Bytes} (noSlash : slash ∉ path) :
    components path = [Component.ofBytes path] := by
  simp [components, List.splitOn_eq_singleton noSlash]

theorem components_name_spell (name : Name) (names : List Name) :
    components (name.bytes ++ spell names) = (name :: names).map .name := by
  induction names generalizing name with
  | nil => simp [spell, components_of_not_mem name.noSlash]
  | cons next rest induction =>
      rw [spell, components_append_slash, components_of_not_mem name.noSlash,
        induction, Component.ofBytes_name]
      rfl

theorem components_spell (names : List Name) :
    components (spell names) = .here :: names.map .name := by
  cases names with
  | nil => rfl
  | cons name rest =>
      rw [spell, ← List.nil_append (slash :: _), components_append_slash,
        components_name_spell]
      rfl

theorem components_render (location : Location) :
    components (render location) =
      .here :: ((if location = [] then [.here] else []) ++
        location.reverse.map .name) := by
  by_cases isRoot : location = []
  · subst isRoot
    rfl
  · rw [render_of_ne_nil isRoot, components_spell]
    simp [isRoot]

def isAbsolute (path : Bytes) : Bool := path.head? = some slash

@[simp] theorem isAbsolute_render (location : Location) :
    isAbsolute (render location) = true := by
  by_cases isRoot : location = []
  · subst isRoot
    rfl
  · rw [render_of_ne_nil isRoot]
    rcases names : location.reverse with _ | ⟨name, rest⟩
    · simp_all
    · simp [isAbsolute, spell]

theorem isAbsolute_append {front : Bytes} (absolute : isAbsolute front = true)
    (back : Bytes) : isAbsolute (front ++ back) = true := by
  cases front with
  | nil => simp [isAbsolute] at absolute
  | cons byte rest => simpa [isAbsolute] using absolute

/-! ## Splitting off the last component -/

def basename (path : Bytes) : Bytes :=
  let trimmed := path.rdropWhile (· = slash)
  if path = [] then dot
  else if trimmed = [] then [slash]
  else trimmed.rtakeWhile (· ≠ slash)

def dirname (path : Bytes) : Bytes :=
  let trimmed := path.rdropWhile (· = slash)
  let parent := trimmed.rdropWhile (· ≠ slash)
  if path = [] then dot
  else if trimmed = [] then [slash]
  else if parent = [] then dot
  else if parent.rdropWhile (· = slash) = [] then [slash]
  else parent.rdropWhile (· = slash)

example : basename (ascii "a/b//") = ascii "b" := by decide
example : dirname (ascii "a/b//") = ascii "a" := by decide
example : dirname (ascii "b") = ascii "." := by decide
example : basename (ascii "//") = ascii "/" := by decide

theorem basename_cases (path : Bytes) :
    basename path = [slash] ∨ slash ∉ basename path := by
  simp only [basename]
  split
  · exact .inr (by decide)
  · split
    · exact .inl rfl
    · refine .inr fun member => ?_
      simpa using List.mem_rtakeWhile_imp member

end Posix
