import FileTransfer.Server.Paths

/-! # Listings

What `f_list_dir` prints for a directory, and when the buffer that it prints into has
room. The check before each line counts one digit where the size may have more, and
leaves out the type.
-/

namespace FileTransfer

open Foundation Posix

/-! ## What is shown -/

structure Shown where
  kind : FileKind
  size : Nat
  name : Bytes
deriving DecidableEq

namespace Shown

def line (shown : Shown) : Bytes := listLine shown.kind shown.size shown.name

/-- The entries that belong to the server are left out by their names. -/
def ofClients (shown : Shown) : Bool :=
  shown.name ≠ dbDir && shown.name ≠ dbHash && shown.name ≠ dbName

theorem line_length (shown : Shown) :
    shown.line.length = shown.name.length + (decimal shown.size).length + 6 := by
  have type : (ascii (if shown.kind = .regular then "F" else "D")).length = 1 := by
    split <;> rfl
  simp only [line, listLine, List.length_append, type,
    show (ascii "[").length = 1 from rfl, show (ascii "]:").length = 2 from rfl,
    show (ascii ":").length = 1 from rfl, show (ascii "\n").length = 1 from rfl]
  omega

end Shown

def shownEntry (env : Env) (tree : FileTree) (location : Location) (name : Name) :
    Option Shown :=
  match tree.get (name :: location) with
  | some (.file content) => some ⟨.regular, content.length, name.bytes⟩
  | some .dir => some ⟨.directory, env.dirSize (name :: location), name.bytes⟩
  | _ => none

def shownEntries (env : Env) (tree : FileTree) (location : Location) : List Shown :=
  ((tree.children location).filterMap (shownEntry env tree location)).filter Shown.ofClients

/-! ## Room in the buffer -/

/-- No buffer that doubling can lead to takes the name and six bytes more, but not
the whole line and its terminator. -/
def LineFits (used nameLength digits : Nat) : Prop :=
  ∀ doublings, ¬ (used + nameLength + 6 ≤ 1024 * 2 ^ doublings ∧
    1024 * 2 ^ doublings ≤ used + nameLength + digits + 6)

def Printable : (used : Nat) → List Shown → Prop
  | _, [] => True
  | used, shown :: rest =>
      LineFits used shown.name.length (decimal shown.size).length ∧
        Printable (used + shown.line.length) rest

/-- A buffer that was doubled no more often than it had to be. -/
structure Buffer (used size : Nat) : Prop where
  doubled : ∃ doublings, size = 1024 * 2 ^ doublings ∧
    ∀ fewer < doublings, 1024 * 2 ^ fewer ≤ used
  room : used < size

theorem Buffer.start : Buffer 0 1024 where
  doubled := ⟨0, rfl, by simp⟩
  room := by decide

theorem Buffer.checked {used size nameLength : Nat} (buffer : Buffer used size)
    (short : nameLength ≤ nameMax) :
    ∃ doublings,
      (if nameLength + used + 1 + 4 ≥ size then size * 2 else size) = 1024 * 2 ^ doublings ∧
        used + nameLength + 6 ≤ 1024 * 2 ^ doublings ∧
        ∀ fewer < doublings, 1024 * 2 ^ fewer < used + nameLength + 6 := by
  rcases buffer with ⟨⟨doublings, rfl, needed⟩, room⟩
  have widest : nameMax = 255 := rfl
  have least : 1024 ≤ 1024 * 2 ^ doublings := Nat.le_mul_of_pos_right _ (Nat.two_pow_pos _)
  by_cases full : nameLength + used + 1 + 4 ≥ 1024 * 2 ^ doublings
  · refine ⟨doublings + 1, by rw [if_pos full, Nat.pow_succ, Nat.mul_assoc], ?_, ?_⟩
    · rw [Nat.pow_succ]
      omega
    · intro fewer atMost
      have bound : 2 ^ fewer ≤ 2 ^ doublings :=
        Nat.pow_le_pow_right (by decide) (Nat.lt_succ_iff.mp atMost)
      omega
  · refine ⟨doublings, if_neg full, by omega, fun fewer less => ?_⟩
    have bound := needed fewer less
    omega

theorem lineFits_iff {used nameLength digits doublings : Nat}
    (enough : used + nameLength + 6 ≤ 1024 * 2 ^ doublings)
    (needed : ∀ fewer < doublings, 1024 * 2 ^ fewer < used + nameLength + 6) :
    LineFits used nameLength digits ↔
      used + nameLength + digits + 6 < 1024 * 2 ^ doublings := by
  constructor
  · intro fits
    by_contra short
    exact fits doublings ⟨enough, by omega⟩
  · rintro room other ⟨above, below⟩
    rcases Nat.lt_or_ge other doublings with less | more
    · have bound := needed other less
      omega
    · have bound : 2 ^ doublings ≤ 2 ^ other := Nat.pow_le_pow_right (by decide) more
      omega

/-! ## The loop -/

section Loop

variable {env : Env} {tree : FileTree} {path : VerifiedPath}

def shownOf (env : Env) (tree : FileTree) (path : VerifiedPath) (entry : Dirent) : Shown where
  kind := entry.kind
  size :=
    match tree.stat env.dirSize (path.path ++ slash :: entry.name) with
    | .ok stat => stat.size
    | .error _ => 0
  name := entry.name

structure Known (env : Env) (tree : FileTree) (path : VerifiedPath) (entry : Dirent) :
    Prop where
  short : entry.name.length ≤ nameMax
  stat : (path.path ++ slash :: entry.name).length < pathMax →
    ∃ stat, tree.stat env.dirSize (path.path ++ slash :: entry.name) = .ok stat

theorem listEntries_filter (entries : List Dirent) (text : Bytes) (buffSize : Nat) :
    listEntries env tree path entries text buffSize =
      listEntries env tree path (entries.filter listed) text buffSize := by
  induction entries generalizing text buffSize with
  | nil => rfl
  | cons entry entries induction =>
      by_cases isListed : listed entry = true
      · simp only [List.filter_cons, isListed, if_true, listEntries, induction]
      · simp only [List.filter_cons, isListed, if_false, listEntries, induction,
          Bool.false_eq_true]

structure Print where
  offset : Nat
  size : Nat
  buffSize : Nat
deriving DecidableEq

def Print.Inside (print : Print) : Prop := print.offset + print.size ≤ print.buffSize

instance (print : Print) : Decidable print.Inside := by
  unfold Print.Inside
  infer_instance

/-- Every `sprintf` of the loop, up to the first entry whose full path cannot be put
together. -/
def prints (env : Env) (tree : FileTree) (path : VerifiedPath) :
    List Dirent → (offset : Nat) → (buffSize : Nat) → List Print
  | [], _, _ => []
  | entry :: entries, offset, buffSize =>
      if listed entry then
        match getFileSize env tree path entry.name with
        | .error _ => []
        | .ok (fileSize, numLength) =>
            let buffSize :=
              if entry.name.length + offset + numLength + 4 ≥ buffSize then buffSize * 2
              else buffSize
            let line := listLine entry.kind fileSize entry.name
            ⟨offset, line.length + 1, buffSize⟩ ::
              prints env tree path entries (offset + line.length) buffSize
      else prints env tree path entries offset buffSize

theorem prints_filter (entries : List Dirent) (offset buffSize : Nat) :
    prints env tree path entries offset buffSize =
      prints env tree path (entries.filter listed) offset buffSize := by
  induction entries generalizing offset buffSize with
  | nil => rfl
  | cons entry entries induction =>
      by_cases isListed : listed entry = true
      · simp only [List.filter_cons, isListed, if_true, prints, induction]
      · simp only [List.filter_cons, isListed, if_false, prints, induction,
          Bool.false_eq_true]

def pathFits (path : VerifiedPath) (entry : Dirent) : Bool :=
  (path.path ++ slash :: entry.name).length < pathMax

theorem pathFits_iff (path : VerifiedPath) (entry : Dirent) :
    pathFits path entry = true ↔ (path.path ++ slash :: entry.name).length < pathMax :=
  decide_eq_true_iff

/-- Whatever the size of a file, the caller is told that it has one digit. -/
theorem getFileSize_eq {name : Bytes} {stat : Stat}
    (short : (path.path ++ slash :: name).length < pathMax)
    (found : tree.stat env.dirSize (path.path ++ slash :: name) = .ok stat) :
    getFileSize env tree path name = .ok (stat.size, 1) := by
  rw [getFileSize, if_neg (not_le.mpr short)]
  simp only [found, countDigits_one, UInt16.toNat_one]

variable (env tree) in
theorem getFileSize_fits {entry : Dirent} (fits : pathFits path entry = true) :
    ∃ numLength, getFileSize env tree path entry.name =
      .ok ((shownOf env tree path entry).size, numLength) := by
  rw [getFileSize, if_neg (not_le.mpr ((pathFits_iff path entry).mp fits))]
  simp only [shownOf]
  cases tree.stat env.dirSize (path.path ++ slash :: entry.name) with
  | error code => exact ⟨0, rfl⟩
  | ok stat => exact ⟨_, rfl⟩

variable (env tree) in
theorem getFileSize_long {entry : Dirent} (long : ¬ pathFits path entry = true) :
    getFileSize env tree path entry.name = .error .bufferOverflow := by
  rw [pathFits_iff, not_lt] at long
  rw [getFileSize, if_pos long]

/-- The loop comes to its end exactly if every full path can be put together and every
`sprintf` stays inside the buffer, and then the lines stand one behind the other. -/
theorem listEntries_prints {entries : List Dirent} {text printed : Bytes} {buffSize : Nat}
    (isListed : ∀ entry ∈ entries, listed entry = true) :
    listEntries env tree path entries text buffSize = .ok printed ↔
      (∀ entry ∈ entries, pathFits path entry = true) ∧
        (∀ print ∈ prints env tree path entries text.length buffSize, print.Inside) ∧
        printed = text ++ (entries.map (shownOf env tree path)).flatMap Shown.line := by
  induction entries generalizing text buffSize with
  | nil =>
      simp only [listEntries, prints, List.map_nil, List.flatMap_nil, List.append_nil,
        List.not_mem_nil, false_implies, implies_true, true_and, Except.ok.injEq]
      exact eq_comm
  | cons entry entries induction =>
      rw [listEntries, prints, if_pos (isListed entry (.head _)),
        if_pos (isListed entry (.head _))]
      by_cases fits : pathFits path entry = true
      · rcases getFileSize_fits env tree fits with ⟨numLength, sized⟩
        simp only [sized, Fallible.ok_bind, List.map_cons, List.flatMap_cons,
          List.forall_mem_cons, fits, true_and, Print.Inside]
        generalize (if entry.name.length + text.length + numLength + 4 ≥ buffSize
          then buffSize * 2 else buffSize) = buffSize
        let line := (shownOf env tree path entry).line
        have together : text.length + line.length = (text ++ line).length :=
          List.length_append.symm
        change (if buffSize < text.length + line.length + 1 then _ else
            listEntries env tree path entries (text ++ line) buffSize) = _ ↔
          _ ∧ (text.length + (line.length + 1) ≤ buffSize ∧
            ∀ print ∈ prints env tree path entries (text.length + line.length) buffSize,
              print.offset + print.size ≤ print.buffSize) ∧ printed = text ++ (line ++ _)
        by_cases room : text.length + line.length + 1 ≤ buffSize
        · rw [if_neg (not_lt.mpr room), together, ← List.append_assoc,
            induction fun other among => isListed other (.tail _ among)]
          exact and_congr_right fun _ => and_congr_left fun _ => (and_iff_right room).symm
        · rw [if_pos (not_le.mp room)]
          apply iff_of_false
          · intro done
            cases done
          · intro stays
            exact room stays.2.1.1
      · rw [getFileSize_long env tree fits]
        apply iff_of_false
        · intro done
          cases done
        · intro stays
          exact fits (stays.1 entry (.head _))

theorem listEntries_error {entries : List Dirent} {text : Bytes} {buffSize : Nat}
    {fault : Fault} (failed : listEntries env tree path entries text buffSize = .error fault) :
    fault = .bufferOverflow := by
  induction entries generalizing text buffSize with
  | nil => cases failed
  | cons entry entries induction =>
      rw [listEntries] at failed
      split at failed
      · by_cases fits : pathFits path entry = true
        · rcases getFileSize_fits env tree fits with ⟨numLength, sized⟩
          simp only [sized, Fallible.ok_bind] at failed
          generalize (if entry.name.length + text.length + numLength + 4 ≥ buffSize
            then buffSize * 2 else buffSize) = buffSize at failed
          split at failed
          · cases failed
            rfl
          · exact induction failed
        · rw [getFileSize_long env tree fits] at failed
          cases failed
          rfl
      · exact induction failed

theorem prints_inside_iff {entries : List Dirent} {used buffSize : Nat}
    (isListed : ∀ entry ∈ entries, listed entry = true)
    (known : ∀ entry ∈ entries, Known env tree path entry) (buffer : Buffer used buffSize) :
    (∀ print ∈ prints env tree path entries used buffSize, print.Inside) ↔
      Printable used ((entries.takeWhile (pathFits path)).map (shownOf env tree path)) := by
  induction entries generalizing used buffSize with
  | nil => simp [prints, Printable]
  | cons entry entries induction =>
      have here := known entry (.head _)
      rw [prints, if_pos (isListed entry (.head _))]
      by_cases fits : pathFits path entry = true
      · have short := (pathFits_iff path entry).mp fits
        rcases here.stat short with ⟨stat, found⟩
        have sized := getFileSize_eq short found
        have shown : shownOf env tree path entry = ⟨entry.kind, stat.size, entry.name⟩ := by
          simp only [shownOf, found]
        have length : (listLine entry.kind stat.size entry.name).length =
            entry.name.length + (decimal stat.size).length + 6 :=
          Shown.line_length ⟨entry.kind, stat.size, entry.name⟩
        rcases buffer.checked here.short with ⟨doublings, doubled, enough, needed⟩
        rw [List.takeWhile_cons_of_pos fits, List.map_cons, Printable, shown]
        simp only [sized, doubled, List.forall_mem_cons, Print.Inside]
        have lineFits : LineFits used entry.name.length (decimal stat.size).length ↔
            used + ((listLine entry.kind stat.size entry.name).length + 1) ≤
              1024 * 2 ^ doublings := by
          rw [lineFits_iff enough needed, length]
          omega
        rw [lineFits]
        refine and_congr_right fun room => ?_
        apply induction (fun other among => isListed other (.tail _ among))
          fun other among => known other (.tail _ among)
        refine ⟨⟨doublings, rfl, fun fewer less => ?_⟩, by omega⟩
        have bound := needed fewer less
        omega
      · rw [getFileSize_long env tree fits, List.takeWhile_cons_of_neg fits]
        simp [Printable]

theorem listEntries_ok_iff {entries : List Dirent} {text printed : Bytes} {buffSize : Nat}
    (isListed : ∀ entry ∈ entries, listed entry = true)
    (known : ∀ entry ∈ entries, Known env tree path entry)
    (buffer : Buffer text.length buffSize) :
    listEntries env tree path entries text buffSize = .ok printed ↔
      (∀ entry ∈ entries, pathFits path entry = true) ∧
        Printable text.length (entries.map (shownOf env tree path)) ∧
        printed = text ++ (entries.map (shownOf env tree path)).flatMap Shown.line := by
  rw [listEntries_prints isListed, prints_inside_iff isListed known buffer]
  refine and_congr_right fun fit => ?_
  rw [List.takeWhile_eq_self_iff.mpr fit]

end Loop

/-! ## The entries of a directory -/

section Directory

variable {env : Env} {tree : FileTree} {location : Location}

theorem stat_entry (dirSize : Location → Nat) (isDir : tree.get location = some .dir)
    {name : Name} (short : (render location ++ slash :: name.bytes).length < pathMax) :
    (∀ content, tree.get (name :: location) = some (.file content) →
      tree.stat dirSize (render location ++ slash :: name.bytes) =
        .ok ⟨.regular, content.length⟩) ∧
    (tree.get (name :: location) = some .dir →
      tree.stat dirSize (render location ++ slash :: name.bytes) =
        .ok ⟨.directory, dirSize (name :: location)⟩) := by
  have located := FileTree.locate_below true (FileTree.solid_of_dir isDir) name.bytes short
  rw [components_of_not_mem name.noSlash, Component.ofBytes_name,
    FileTree.walk_entry name isDir] at located
  constructor
  · intro content isFile
    simp only [isFile] at located
    exact FileTree.stat_file dirSize located isFile
  · intro isSubdir
    simp only [isSubdir] at located
    exact FileTree.stat_dir dirSize located isSubdir

def direntOf (tree : FileTree) (location : Location) (name : Name) : Dirent :=
  ⟨name.bytes, ((tree.get (name :: location)).map Node.kind).getD .other⟩

theorem listed_direntOf (isDir : tree.get location = some .dir) (name : Name)
    (short : listed (direntOf tree location name) = true →
      (render location ++ slash :: name.bytes).length < pathMax) :
    listed (direntOf tree location name) = true ∧
        shownEntry env tree location name =
          some (shownOf env tree ⟨render location⟩ (direntOf tree location name)) ∧
        (shownOf env tree ⟨render location⟩ (direntOf tree location name)).ofClients = true ∨
      listed (direntOf tree location name) = false ∧
        ∀ shown, shownEntry env tree location name = some shown → shown.ofClients = false := by
  have notDot := name.valid.2.2.2.1
  have notDotDot := name.valid.2.2.2.2.1
  have byName : ∀ kind size, kind = .regular ∨ kind = .directory →
      listed ⟨name.bytes, kind⟩ = Shown.ofClients ⟨kind, size, name.bytes⟩ := by
    rintro kind size (rfl | rfl) <;> simp [listed, Shown.ofClients, notDot, notDotDot]
  -- An entry of a kind that is shown, with the size that `stat` gives it.
  have shows : ∀ kind size, kind = .regular ∨ kind = .directory →
      direntOf tree location name = ⟨name.bytes, kind⟩ →
      shownEntry env tree location name = some ⟨kind, size, name.bytes⟩ →
      ((render location ++ slash :: name.bytes).length < pathMax →
        tree.stat env.dirSize (render location ++ slash :: name.bytes) = .ok ⟨kind, size⟩) →
      listed (direntOf tree location name) = true ∧
          shownEntry env tree location name =
            some (shownOf env tree ⟨render location⟩ (direntOf tree location name)) ∧
          (shownOf env tree ⟨render location⟩ (direntOf tree location name)).ofClients = true ∨
        listed (direntOf tree location name) = false ∧
          ∀ shown, shownEntry env tree location name = some shown →
            shown.ofClients = false := by
    intro kind size isShown entry toShow sized
    by_cases ofClients : Shown.ofClients ⟨kind, size, name.bytes⟩ = true
    · have isListed : listed (direntOf tree location name) = true := by
        rw [entry, byName kind size isShown, ofClients]
      have printed : shownOf env tree ⟨render location⟩ (direntOf tree location name) =
          ⟨kind, size, name.bytes⟩ := by
        simp only [entry, shownOf, sized (short isListed)]
      exact .inl ⟨isListed, by rw [toShow, printed], by rw [printed, ofClients]⟩
    · refine .inr ⟨?_, fun shown same => ?_⟩
      · rw [entry, byName kind size isShown]
        simpa using ofClients
      · rw [toShow, Option.some.injEq] at same
        rw [← same]
        simpa using ofClients
  have hidden : listed (direntOf tree location name) = false →
      shownEntry env tree location name = none →
      listed (direntOf tree location name) = false ∧
        ∀ shown, shownEntry env tree location name = some shown →
          shown.ofClients = false := by
    intro notListed notShown
    refine ⟨notListed, fun shown same => ?_⟩
    rw [notShown] at same
    cases same
  cases found : tree.get (name :: location) with
  | none => exact .inr (hidden (by simp [direntOf, found, listed]) (by simp [shownEntry, found]))
  | some node =>
      cases node with
      | file content =>
          exact shows .regular content.length (.inl rfl) (by simp [direntOf, found, Node.kind])
            (by simp [shownEntry, found])
            fun fits => (stat_entry env.dirSize isDir fits).1 content found
      | dir =>
          exact shows .directory (env.dirSize (name :: location)) (.inr rfl)
            (by simp [direntOf, found, Node.kind]) (by simp [shownEntry, found])
            fun fits => (stat_entry env.dirSize isDir fits).2 found
      | link text =>
          exact .inr (hidden (by simp [direntOf, found, listed, Node.kind])
            (by simp [shownEntry, found]))
      | other =>
          exact .inr (hidden (by simp [direntOf, found, listed, Node.kind])
            (by simp [shownEntry, found]))

def listedEntries (env : Env) (tree : FileTree) (location : Location) : List Shown :=
  ((env.entries.arrange (tree.dirents location)).filter listed).map
    (shownOf env tree ⟨render location⟩)

def PathsFit (tree : FileTree) (location : Location) : Prop :=
  ∀ entry ∈ tree.dirents location, listed entry = true →
    (render location ++ slash :: entry.name).length < pathMax

theorem listedEntries_perm (isDir : tree.get location = some .dir)
    (fit : PathsFit tree location) :
    (listedEntries env tree location).Perm (shownEntries env tree location) := by
  have stored : ((tree.dirents location).filter listed).map
      (shownOf env tree ⟨render location⟩) = shownEntries env tree location := by
    have dots : listed ⟨dot, .directory⟩ = false ∧ listed ⟨dotDot, .directory⟩ = false := by
      decide
    have entries : tree.dirents location = ⟨dot, .directory⟩ :: ⟨dotDot, .directory⟩ ::
        (tree.children location).map (direntOf tree location) := rfl
    have eachFits : ∀ name ∈ tree.children location,
        listed (direntOf tree location name) = true →
          (render location ++ slash :: name.bytes).length < pathMax := by
      intro name child isListed
      refine fit (direntOf tree location name) ?_ isListed
      rw [entries]
      exact .tail _ (.tail _ (List.mem_map_of_mem child))
    rw [entries, List.filter_cons_of_neg (by simp [dots.1]),
      List.filter_cons_of_neg (by simp [dots.2]), shownEntries]
    generalize tree.children location = names at eachFits
    induction names with
    | nil => rfl
    | cons name names induction =>
        have rest := induction fun other among => eachFits other (.tail _ among)
        rw [List.map_cons]
        rcases listed_direntOf isDir name (eachFits name (.head _)) with
          ⟨isListed, toShow, ofClients⟩ | ⟨notListed, notShown⟩
        · rw [List.filter_cons_of_pos isListed, List.map_cons, rest,
            List.filterMap_cons_some toShow, List.filter_cons_of_pos ofClients]
        · rw [List.filter_cons_of_neg (by simp [notListed]), rest]
          cases shown : shownEntry env tree location name with
          | none => rw [List.filterMap_cons_none shown]
          | some entry =>
              rw [List.filterMap_cons_some shown,
                List.filter_cons_of_neg (by simp [notShown entry shown])]
  rw [← stored]
  exact ((env.entries.perm _).filter _).map _

theorem known_of_listed (isDir : tree.get location = some .dir) {entry : Dirent}
    (member : entry ∈ tree.dirents location) (isListed : listed entry = true) :
    Known env tree ⟨render location⟩ entry := by
  rcases List.mem_cons.mp member with rfl | member
  · exact absurd isListed (by decide)
  rcases List.mem_cons.mp member with rfl | member
  · exact absurd isListed (by decide)
  rcases List.mem_map.mp member with ⟨name, _, rfl⟩
  refine ⟨name.valid.2.2.2.2.2, fun short => ?_⟩
  cases found : tree.get (name :: location) with
  | none => simp [found, listed] at isListed
  | some node =>
      cases node with
      | file content => exact ⟨_, (stat_entry env.dirSize isDir short).1 content found⟩
      | dir => exact ⟨_, (stat_entry env.dirSize isDir short).2 found⟩
      | link text => simp [found, listed, Node.kind] at isListed
      | other => simp [found, listed, Node.kind] at isListed

theorem pathsFit_iff (env : Env) (tree : FileTree) (location : Location) :
    (∀ entry ∈ (env.entries.arrange (tree.dirents location)).filter listed,
        pathFits ⟨render location⟩ entry = true) ↔ PathsFit tree location := by
  constructor
  · intro fit entry member isListed
    exact (pathFits_iff _ entry).mp
      (fit entry (List.mem_filter.mpr ⟨env.entries.mem_arrange.mpr member, isListed⟩))
  · intro fit entry member
    rcases List.mem_filter.mp member with ⟨arranged, isListed⟩
    exact (pathFits_iff _ entry).mpr (fit entry (env.entries.mem_arrange.mp arranged) isListed)

theorem listEntries_dir_ok_iff {printed : Bytes} (isDir : tree.get location = some .dir) :
    listEntries env tree ⟨render location⟩
        (env.entries.arrange (tree.dirents location)) [] 1024 = .ok printed ↔
      PathsFit tree location ∧ Printable 0 (listedEntries env tree location) ∧
        printed = (listedEntries env tree location).flatMap Shown.line := by
  have fromTree : ∀ entry ∈ (env.entries.arrange (tree.dirents location)).filter listed,
      entry ∈ tree.dirents location ∧ listed entry = true := by
    intro entry member
    rcases List.mem_filter.mp member with ⟨member, isListed⟩
    exact ⟨(env.entries.mem_arrange).mp member, isListed⟩
  rw [listEntries_filter, listEntries_ok_iff (fun entry member => (fromTree entry member).2)
    (fun entry member => known_of_listed isDir (fromTree entry member).1
      (fromTree entry member).2) (show Buffer ([] : Bytes).length 1024 from .start),
    pathsFit_iff]
  rfl

theorem fListDir_dir (sha : Sha256) (isDir : tree.get location = some .dir)
    (short : (render location).length < pathMax) (opened : env.opendir = true) :
    fListDir env sha tree ⟨render location⟩ = (do
      let text ← listEntries env tree ⟨render location⟩
        (env.entries.arrange (tree.dirents location)) [] 1024
      return (.opSuccess, some ⟨sha.digest text, text, render location⟩)) := by
  have located := FileTree.locate_render true (FileTree.solid_of_dir isDir) short
  have found := FileTree.stat_dir env.dirSize located isDir
  have read : tree.readDirectory env.opendir env.entries (render location) =
      .ok (env.entries.arrange (tree.dirents location)) := by
    rw [FileTree.readDirectory_dir _ _ located isDir, if_pos opened, Target.location_node]
  simp only [fListDir, found, read, ne_eq, not_true, if_false]

theorem fListDir_ok_iff {sha : Sha256} {content : FileContent}
    (isDir : tree.get location = some .dir) (short : (render location).length < pathMax)
    (opened : env.opendir = true) :
    fListDir env sha tree ⟨render location⟩ = .ok (.opSuccess, some content) ↔
      PathsFit tree location ∧ Printable 0 (listedEntries env tree location) ∧
        content = ⟨sha.digest ((listedEntries env tree location).flatMap Shown.line),
          (listedEntries env tree location).flatMap Shown.line, render location⟩ := by
  rw [fListDir_dir sha isDir short opened]
  constructor
  · intro done
    rcases Fallible.ok_of_bind_ok done with ⟨text, printed, final⟩
    rcases (listEntries_dir_ok_iff isDir).mp printed with ⟨fit, room, rfl⟩
    cases final
    exact ⟨fit, room, rfl⟩
  · rintro ⟨fit, room, rfl⟩
    rw [(listEntries_dir_ok_iff isDir).mpr ⟨fit, room, rfl⟩]
    rfl

def Visible (tree : FileTree) (location : Location) (name : Name) : Prop :=
  (tree.get (name :: location) = some .dir ∨
      ∃ content, tree.get (name :: location) = some (.file content)) ∧
    name.bytes ≠ dbDir

/-- The other two names that are left out have slashes in them, and no entry has. -/
theorem listed_direntOf_iff (tree : FileTree) (location : Location) (name : Name) :
    listed (direntOf tree location name) = true ↔ Visible tree location name := by
  have notDot : name.bytes ≠ dot := name.valid.2.2.2.1
  have notDotDot : name.bytes ≠ dotDot := name.valid.2.2.2.2.1
  have noPath : ∀ path : Bytes, slash ∈ path → name.bytes ≠ path := by
    rintro path hasSlash rfl
    exact name.noSlash hasSlash
  have notHash := noPath dbHash (by decide)
  have notName := noPath dbName (by decide)
  rw [Visible]
  cases found : tree.get (name :: location) with
  | none => simp [direntOf, listed, found]
  | some node =>
      cases node <;>
        simp [direntOf, listed, found, Node.kind, notDot, notDotDot, notHash, notName]

theorem mem_listedEntries_iff (env : Env) (tree : FileTree) (location : Location)
    (name : Name) :
    (∃ shown ∈ listedEntries env tree location, shown.name = name.bytes) ↔
      Visible tree location name := by
  rw [← listed_direntOf_iff]
  constructor
  · rintro ⟨shown, member, named⟩
    rcases List.mem_map.mp member with ⟨entry, filtered, rfl⟩
    rcases List.mem_filter.mp filtered with ⟨arranged, isListed⟩
    rcases List.mem_cons.mp ((env.entries.mem_arrange).mp arranged) with rfl | behind
    · exact absurd isListed (by decide)
    rcases List.mem_cons.mp behind with rfl | child
    · exact absurd isListed (by decide)
    rcases List.mem_map.mp child with ⟨name', _, rfl⟩
    have same : name' = name := Name.ext named
    subst same
    exact isListed
  · intro isListed
    have child : name ∈ tree.children location := by
      apply (tree.mem_children_iff location name).mpr
      cases found : tree.get (name :: location) with
      | none => simp [direntOf, listed, found] at isListed
      | some node => exact ⟨node, rfl⟩
    have entry : direntOf tree location name ∈ tree.dirents location :=
      .tail _ (.tail _ (List.mem_map_of_mem child))
    refine ⟨_, List.mem_map_of_mem (List.mem_filter.mpr
      ⟨(env.entries.mem_arrange).mpr entry, isListed⟩), rfl⟩

end Directory

end FileTransfer
