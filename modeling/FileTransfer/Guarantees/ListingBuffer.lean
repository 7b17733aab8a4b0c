import FileTransfer.Server.Listing

/-! # The buffer of a listing

Before each line the size of the buffer is checked against the name, one digit and four
bytes more. The type in front of the line takes three bytes, and the size of a file up to
twenty digits, so a line may be checked and still not fit.
-/

namespace FileTransfer

open Foundation Posix

def PrintsInside (env : Env) (tree : FileTree) (location : Location) : Prop :=
  ∀ print ∈ prints env tree ⟨render location⟩
      (env.entries.arrange (tree.dirents location)) 0 1024, print.Inside

/-- The entries that the loop prints a line for, in the order in which they are read: those
before the first whose full path cannot be put together. -/
def reachedEntries (env : Env) (tree : FileTree) (location : Location) : List Shown :=
  (((env.entries.arrange (tree.dirents location)).filter listed).takeWhile
    (pathFits ⟨render location⟩)).map (shownOf env tree ⟨render location⟩)

/-- Listing a directory prints inside the buffer exactly if no line meets a buffer that
takes its name and six bytes more, but not the whole line and its terminator. -/
theorem printsInside_iff {env : Env} {tree : FileTree} {location : Location}
    (isDir : tree.get location = some .dir) :
    PrintsInside env tree location ↔ Printable 0 (reachedEntries env tree location) := by
  have fromTree : ∀ entry ∈ (env.entries.arrange (tree.dirents location)).filter listed,
      entry ∈ tree.dirents location ∧ listed entry = true := by
    intro entry member
    rcases List.mem_filter.mp member with ⟨arranged, isListed⟩
    exact ⟨env.entries.mem_arrange.mp arranged, isListed⟩
  rw [PrintsInside, prints_filter, reachedEntries]
  apply prints_inside_iff _ _ Buffer.start
  · intro entry member
    exact (fromTree entry member).2
  · intro entry member
    exact known_of_listed isDir (fromTree entry member).1 (fromTree entry member).2

/-- Listing a directory oversteps a buffer exactly if a full path does not fit its own, or a
line is printed outside. -/
theorem listEntries_overflow_iff {env : Env} {tree : FileTree} {location : Location} :
    listEntries env tree ⟨render location⟩ (env.entries.arrange (tree.dirents location)) [] 1024 =
        .error .bufferOverflow ↔
      ¬ (PathsFit tree location ∧ PrintsInside env tree location) := by
  have ends : (∃ printed, listEntries env tree ⟨render location⟩
      (env.entries.arrange (tree.dirents location)) [] 1024 = .ok printed) ↔
        PathsFit tree location ∧ PrintsInside env tree location := by
    rw [listEntries_filter, PrintsInside, prints_filter, ← pathsFit_iff env]
    simp only [listEntries_prints fun entry member => (List.mem_filter.mp member).2,
      List.length_nil, exists_and_left, exists_eq, and_true]
  rw [← ends]
  cases printed : listEntries env tree ⟨render location⟩
      (env.entries.arrange (tree.dirents location)) [] 1024 with
  | ok text => simp
  | error fault => simp [listEntries_error printed]

theorem fListDir_overflow_iff {env : Env} {sha : Sha256} {tree : FileTree} {location : Location}
    (short : (render location).length < pathMax) (solid : tree.Solid location) :
    fListDir env sha tree ⟨render location⟩ = .error .bufferOverflow ↔
      tree.get location = some .dir ∧ env.opendir = true ∧
        ¬ (PathsFit tree location ∧ PrintsInside env tree location) := by
  rw [← listEntries_overflow_iff]
  by_cases isDir : tree.get location = some .dir
  · cases opened : env.opendir with
    | true =>
        rw [fListDir_dir sha isDir short opened, and_iff_right isDir, and_iff_right rfl]
        cases listEntries env tree ⟨render location⟩
          (env.entries.arrange (tree.dirents location)) [] 1024 <;> simp
    | false =>
        have located := FileTree.locate_render true solid short
        have read := FileTree.readDirectory_dir env.opendir env.entries located isDir
        rw [opened, if_neg Bool.false_ne_true] at read
        simp [fListDir, FileTree.stat_dir env.dirSize located isDir, opened, read]
  · refine iff_of_false (fun failed => ?_) fun overruns => isDir overruns.1
    simp only [fListDir] at failed
    split at failed
    · cases failed
    · split at failed
      · cases failed
      · split at failed
        · cases failed
        · rename_i entries read
          rcases FileTree.readDirectory_ok read with ⟨target, found, _, dirHere, _⟩
          rw [FileTree.locate_render true solid short] at found
          cases found
          exact isDir dirHere

/-! A directory with four empty files in it, whose names are 250, 250, 250 and 246 bytes
long: their lines are 1024 bytes together, as many as the buffer has. -/

def share : Name := ⟨ascii "share", by decide⟩

def repeated (letter : UInt8) (count : Nat) (valid : NameValid (List.replicate count letter)) :
    Name :=
  ⟨List.replicate count letter, valid⟩

set_option maxRecDepth 4000 in
def fourNames : List Name :=
  [repeated 97 250 (by decide +kernel), repeated 98 250 (by decide +kernel),
    repeated 99 250 (by decide +kernel), repeated 100 246 (by decide +kernel)]

def fourFiles : FileTree :=
  fourNames.foldl (fun tree name => tree.put [name, share] (.file []))
    (FileTree.bare.put [share] .dir)

theorem full_buffer_is_overrun :
    ¬ PrintsInside {} fourFiles [share] ∧
      listEntries {} fourFiles ⟨ascii "/share"⟩ (fourFiles.dirents [share]) [] 1024 =
        .error .bufferOverflow := by
  have last : (⟨767, 258, 1024⟩ : Print) ∈ prints {} fourFiles ⟨render [share]⟩
      (fourFiles.dirents [share]) 0 1024 := by
    decide +kernel
  constructor
  · intro inside
    have impossible := inside _ last
    revert impossible
    decide
  · decide +kernel

theorem printsInside_iff_four_files :
    PrintsInside {} fourFiles [share] ↔ Printable 0 (reachedEntries {} fourFiles [share]) :=
  printsInside_iff (by decide +kernel)

/-! ## The digits of a size -/

theorem decimal_length_eq_one_iff (value : Nat) :
    (decimal value).length = 1 ↔ value < 10 := by
  by_cases isZero : value = 0
  · rw [isZero]
    decide
  · have digits : (decimal value).length = (Nat.digits 10 value).length := by
      rw [decimal, if_neg isZero, List.length_reverse, List.length_map]
    have some' : 0 < (Nat.digits 10 value).length := by
      apply List.length_pos_iff.mpr
      rwa [ne_eq, Nat.digits_eq_nil_iff_eq_zero]
    have bounded : (Nat.digits 10 value).length ≤ 1 ↔ value < 10 :=
      Nat.digits_length_le_iff (by decide) value
    rw [digits, ← bounded]
    omega

/-- The count that comes with the size of a file is that of its digits exactly for sizes
of one digit. -/
theorem getFileSize_counts_iff {env : Env} {tree : FileTree} {path : VerifiedPath}
    {name : Bytes} {stat : Stat} (short : (path.path ++ slash :: name).length < pathMax)
    (found : tree.stat env.dirSize (path.path ++ slash :: name) = .ok stat) :
    ∃ numLen, getFileSize env tree path name = .ok (stat.size, numLen) ∧
      (numLen = (decimal stat.size).length ↔ stat.size < 10) := by
  refine ⟨1, getFileSize_eq short found, ?_⟩
  rw [eq_comm]
  apply decimal_length_eq_one_iff

def tenBytes : FileTree := FileTree.bare.put [share] (.file (ascii "0123456789"))

def rootPath : VerifiedPath := ⟨ascii "/"⟩

theorem rootPath_short : (rootPath.path ++ slash :: ascii "share").length < pathMax := by decide

theorem tenBytes_stat :
    tenBytes.stat (Env.dirSize {}) (rootPath.path ++ slash :: ascii "share") =
      .ok ⟨.regular, 10⟩ := by
  decide +kernel

theorem ten_bytes_count_one_digit :
    getFileSize {} tenBytes rootPath (ascii "share") = .ok (10, 1) ∧
      (decimal 10).length = 2 := by
  constructor
  · exact getFileSize_eq rootPath_short tenBytes_stat
  · decide

theorem getFileSize_counts_iff_ten_bytes :
    ∃ numLen, getFileSize {} tenBytes rootPath (ascii "share") = .ok (10, numLen) ∧
      (numLen = (decimal 10).length ↔ 10 < 10) :=
  getFileSize_counts_iff rootPath_short tenBytes_stat

end FileTransfer
