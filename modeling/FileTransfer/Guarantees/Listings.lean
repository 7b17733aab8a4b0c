import FileTransfer.Client.Ctrl
import FileTransfer.Guarantees.Mediation
import FileTransfer.Server.Entries
import FileTransfer.Server.Listing

/-! # Directory listings

What the client makes of the listing of a directory. The lines carry names as they
are, and the client takes the lines apart at the bytes that separate them.
-/

namespace FileTransfer

open Foundation Posix Client

/-! ## Decoding -/

def typeText (kind : FileKind) : Text :=
  if kind = .regular then ['[', 'F', ']'] else ['[', 'D', ']']

structure PlainName (name : Bytes) : Prop where
  noColon : colon ∉ name
  noNewline : newline ∉ name
  isText : ∃ text, encodeUtf8 text = name

def ListingDecodes (env : Env) (sha : Sha256) (digits : UnicodeDigits) (tree : FileTree)
    (location : Location) : Prop :=
  ∃ content entries,
    fListDir env sha tree ⟨render location⟩ = .ok (.opSuccess, some content) ∧
      parseDir digits content.stream = .ok entries ∧
      (entries.map fun entry => (entry.fType, entry.size, encodeUtf8 entry.fName)).Perm
        ((shownEntries env tree location).map fun shown =>
          (typeText shown.kind, shown.size, shown.name))

structure Listable (env : Env) (tree : FileTree) (location : Location) : Prop where
  paths : PathsFit tree location
  lines : Printable 0 (listedEntries env tree location)
  names : ∀ shown ∈ shownEntries env tree location, PlainName shown.name

def Shown.decoded (shown : Shown) (name : Text) : DirList :=
  ⟨typeText shown.kind, shown.size, name⟩

theorem Shown.line_decoded (shown : Shown) {name : Text}
    (isText : encodeUtf8 name = shown.name) :
    shown.line = encodeUtf8 ((shown.decoded name).line ++ ['\n']) := by
  have type : encodeUtf8 (typeText shown.kind) =
      ascii "[" ++ ascii (if shown.kind = .regular then "F" else "D") ++ ascii "]" := by
    rw [typeText]
    split <;> rfl
  have digits : encodeUtf8 (asciiText (decimal shown.size)) = decimal shown.size := by
    refine encodeUtf8_asciiText fun byte member => ?_
    rw [decimal_eq] at member
    rcases List.mem_map.mp member with ⟨digit, isDigit, rfl⟩
    have small := decimalDigits_lt isDigit
    rw [UInt8.toNat_ofNat_of_lt' (by omega : 48 + digit < 256)]
    omega
  have separators : String.utf8EncodeChar ':' = ascii ":" ∧
      encodeUtf8 ['\n'] = ascii "\n" ∧ ascii "]:" = ascii "]" ++ ascii ":" :=
    ⟨rfl, rfl, rfl⟩
  simp only [line, listLine, Shown.decoded, DirList.line, encodeUtf8_append, encodeUtf8_cons,
    type, digits, isText, separators, List.append_assoc]

theorem decoded_entries {listing : List Shown}
    (plain : ∀ shown ∈ listing, PlainName shown.name) :
    ∃ entries : List DirList, (∀ entry ∈ entries, entry.Clean) ∧
      listing.flatMap Shown.line =
        encodeUtf8 (entries.flatMap fun entry => entry.line ++ ['\n']) ∧
      (entries.map fun entry => (entry.fType, entry.size, encodeUtf8 entry.fName)) =
        listing.map fun shown => (typeText shown.kind, shown.size, shown.name) := by
  have notSplit : ∀ {character : Char} {byte : UInt8} {text : Text},
      [byte] = String.utf8EncodeChar character → byte ∉ encodeUtf8 text →
        character ∉ text := by
    intro character byte text single absent among
    exact absent (List.mem_flatMap.mpr ⟨character, among, by rw [← single]; simp⟩)
  induction listing with
  | nil => exact ⟨[], by simp, rfl, rfl⟩
  | cons shown listing induction =>
      rcases induction fun other among => plain other (.tail _ among) with
        ⟨entries, clean, lines, shownAs⟩
      rcases plain shown (.head _) with ⟨noColon, noNewline, name, isText⟩
      refine ⟨shown.decoded name :: entries, ?_, ?_, ?_⟩
      · rw [List.forall_mem_cons]
        rw [← isText] at noColon noNewline
        refine ⟨⟨?_, notSplit rfl noColon, notSplit rfl noNewline⟩, clean⟩
        simp only [Shown.decoded, typeText]
        split <;> decide
      · rw [List.flatMap_cons, List.flatMap_cons, encodeUtf8_append,
          shown.line_decoded isText, lines]
      · rw [List.map_cons, List.map_cons, shownAs]
        simp only [Shown.decoded, isText]

theorem plainName_of_text {name : Text} (noColon : ':' ∉ name) (noNewline : '\n' ∉ name) :
    PlainName (encodeUtf8 name) := by
  refine ⟨fun among => ?_, fun among => ?_, name, rfl⟩
  · rcases List.append_of_mem among with ⟨front, back, split⟩
    rcases encodeUtf8_split (by decide) split with ⟨before, after, rfl, _, _⟩
    exact noColon (by simp [show Char.ofNat colon.toNat = ':' from rfl])
  · rcases List.append_of_mem among with ⟨front, back, split⟩
    rcases encodeUtf8_split (by decide) split with ⟨before, after, rfl, _, _⟩
    exact noNewline (by simp [show Char.ofNat newline.toNat = '\n' from rfl])

/-- A directory's listing decodes to the directory exactly if it can be listed. -/
theorem listingDecodes_iff {env : Env} (sha : Sha256) (digits : UnicodeDigits)
    {tree : FileTree} {location : Location} (isDir : tree.get location = some .dir)
    (short : (render location).length < pathMax) (opened : env.opendir = true) :
    ListingDecodes env sha digits tree location ↔ Listable env tree location := by
  constructor
  · rintro ⟨content, entries, listing, parsed, same⟩
    rcases (fListDir_ok_iff isDir short opened).mp listing with ⟨fit, lines, rfl⟩
    refine ⟨fit, lines, fun shown among => ?_⟩
    have shownAs := same.mem_iff.mpr (List.mem_map_of_mem among)
    rcases List.mem_map.mp shownAs with ⟨entry, isEntry, equal⟩
    have names := parseDir_names parsed entry isEntry
    have name : encodeUtf8 entry.fName = shown.name :=
      congrArg (fun triple => triple.2.2) equal
    rw [← name]
    exact plainName_of_text names.1 names.2
  · rintro ⟨fit, lines, plain⟩
    have perm : (listedEntries env tree location).Perm (shownEntries env tree location) :=
      listedEntries_perm isDir fit
    rcases decoded_entries fun shown among => plain shown (perm.mem_iff.mp among) with
      ⟨entries, clean, printed, shownAs⟩
    refine ⟨_, entries.mergeSort sortsBefore,
      (fListDir_ok_iff isDir short opened).mpr ⟨fit, lines, rfl⟩, ?_, ?_⟩
    · rw [printed, parseDir_lines digits clean]
    · refine ((List.mergeSort_perm entries sortsBefore).map _).trans ?_
      rw [shownAs]
      exact perm.map _

/-! A root directory that holds one file, under a name of a client's choice. -/

def holding (name : Name) : FileTree := FileTree.bare.put [name] (.file (ascii "x"))

def asciiDigits : UnicodeDigits where
  isDigit character := '0' ≤ character && character ≤ '9'
  decimal character := if character.isDigit then some (character.toNat - 48) else none
  ascii := by decide

def withColon : Name := ⟨ascii "a:b", by decide⟩

def withoutColon : Name := ⟨ascii "ab", by decide⟩

theorem colon_breaks_listing :
    ¬ ListingDecodes {} passwordSha asciiDigits (holding withColon) [] := by
  rintro ⟨content, entries, listing, parsed, same⟩
  have shown : (⟨.regular, 1, ascii "a:b"⟩ : Shown) ∈ shownEntries {} (holding withColon) [] := by
    decide
  rcases List.mem_map.mp (same.mem_iff.mpr (List.mem_map_of_mem shown)) with
    ⟨entry, isEntry, equal⟩
  have name : encodeUtf8 entry.fName = ascii "a:b" := congrArg (fun triple => triple.2.2) equal
  have noColon := (plainName_of_text (parseDir_names parsed entry isEntry).1
    (parseDir_names parsed entry isEntry).2).noColon
  rw [name] at noColon
  exact noColon (by decide)

theorem drafts_valid : NameValid (ascii "drafts") := by decide

theorem empty_valid : NameValid (ascii "empty") := by decide

def severalEntries : FileTree :=
  (((holding withoutColon).put [⟨ascii "drafts", drafts_valid⟩] .dir).put
    [⟨ascii "empty", empty_valid⟩] (.file [])).put [dbDirName] .dir

theorem severalEntries_listed : listedEntries {} severalEntries [] =
    [⟨.regular, 0, ascii "empty"⟩, ⟨.directory, 0, ascii "drafts"⟩,
      ⟨.regular, 1, ascii "ab"⟩] := by
  decide +kernel

theorem severalEntries_paths : PathsFit severalEntries [] := by
  have short : ∀ entry ∈ severalEntries.dirents [],
      (render [] ++ slash :: entry.name).length < pathMax := by decide +kernel
  exact fun entry among _ => short entry among

theorem lineFits_of_small {used nameLength digits : Nat}
    (small : used + nameLength + digits + 6 < 1024) : LineFits used nameLength digits := by
  rintro doublings ⟨_, full⟩
  have least : 1024 * 1 ≤ 1024 * 2 ^ doublings := Nat.mul_le_mul_left _ Nat.one_le_two_pow
  omega

theorem listingDecodes_iff_several :
    ListingDecodes {} passwordSha asciiDigits severalEntries [] := by
  have isDir : severalEntries.get [] = some .dir := by decide +kernel
  refine (listingDecodes_iff passwordSha asciiDigits isDir (by decide) rfl).mpr
    ⟨severalEntries_paths, ?_, ?_⟩
  · rw [severalEntries_listed]
    exact ⟨lineFits_of_small (by decide), lineFits_of_small (by decide),
      lineFits_of_small (by decide), trivial⟩
  · intro shown among
    rw [← (listedEntries_perm isDir severalEntries_paths).mem_iff, severalEntries_listed] at among
    simp only [List.mem_cons, List.not_mem_nil, or_false] at among
    have plain : ∀ {name : Bytes}, (∀ byte ∈ name, byte.toNat < 128) → colon ∉ name →
        newline ∉ name → PlainName name :=
      fun isAscii noColon noNewline => ⟨noColon, noNewline, _, encodeUtf8_asciiText isAscii⟩
    rcases among with rfl | rfl | rfl <;> exact plain (by decide +kernel) (by decide) (by decide)

end FileTransfer
