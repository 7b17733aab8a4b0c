import FileTransfer.Foundation.ByteString

/-! # UTF-8

Text and its encoding. ASCII characters encode as themselves and occur in no other
character's encoding, so encoded text can be cut at them.
-/

namespace Foundation

abbrev Text := List Char

def encodeUtf8 (text : Text) : Bytes := text.flatMap String.utf8EncodeChar

def decodeUtf8 (bytes : Bytes) : Option Text :=
  bytes.toByteArray.utf8Decode?.map Array.toList

theorem decodeUtf8_eq_some_iff {bytes : Bytes} {text : Text} :
    decodeUtf8 bytes = some text ↔ bytes = encodeUtf8 text := by
  constructor
  · intro decoded
    rcases Option.map_eq_some_iff.mp decoded with ⟨characters, found, rfl⟩
    have present : bytes.toByteArray.utf8Decode?.isSome := by simp [found]
    have back : (bytes.toByteArray.utf8Decode?.get present).toList.utf8Encode =
        bytes.toByteArray := ByteArray.utf8Encode_get_utf8Decode?
    have same := congrArg (fun array => array.data.toList) back
    simp only [found, Option.get_some, List.utf8Encode, List.toList_data_toByteArray] at same
    exact same.symm
  · rintro rfl
    have decoded : (encodeUtf8 text).toByteArray.utf8Decode? = some text.toArray :=
      List.utf8Decode?_utf8Encode
    rw [decodeUtf8, decoded]
    rfl

@[simp] theorem decodeUtf8_encodeUtf8 (text : Text) :
    decodeUtf8 (encodeUtf8 text) = some text :=
  decodeUtf8_eq_some_iff.mpr rfl

theorem encodeUtf8_injective {left right : Text}
    (same : encodeUtf8 left = encodeUtf8 right) : left = right := by
  have decoded := decodeUtf8_encodeUtf8 left
  rw [same, decodeUtf8_encodeUtf8] at decoded
  exact (Option.some.inj decoded).symm

@[simp] theorem encodeUtf8_append (front back : Text) :
    encodeUtf8 (front ++ back) = encodeUtf8 front ++ encodeUtf8 back :=
  List.flatMap_append

theorem encodeUtf8_cons (character : Char) (text : Text) :
    encodeUtf8 (character :: text) = String.utf8EncodeChar character ++ encodeUtf8 text :=
  List.flatMap_cons

/-! ## ASCII -/

theorem utf8EncodeChar_cases (character : Char) :
    character.toNat < 128 ∧
        String.utf8EncodeChar character = [UInt8.ofNat character.toNat] ∨
      128 ≤ character.toNat ∧
        ∀ byte ∈ String.utf8EncodeChar character, 128 ≤ byte.toNat := by
  have value : character.val.toNat = character.toNat := rfl
  fun_cases String.utf8EncodeChar character with
  | case1 number small => exact .inl ⟨by omega, rfl⟩
  | case2 number large medium =>
      refine .inr ⟨by omega, ?_⟩
      simp only [List.mem_cons, List.not_mem_nil, or_false, forall_eq_or_imp, forall_eq,
        UInt8.toNat_ofNat']
      omega
  | case3 number large larger medium =>
      refine .inr ⟨by omega, ?_⟩
      simp only [List.mem_cons, List.not_mem_nil, or_false, forall_eq_or_imp, forall_eq,
        UInt8.toNat_ofNat']
      omega
  | case4 number large larger largest =>
      refine .inr ⟨by omega, ?_⟩
      simp only [List.mem_cons, List.not_mem_nil, or_false, forall_eq_or_imp, forall_eq,
        UInt8.toNat_ofNat']
      omega

def IsAscii (text : Text) : Prop := ∀ character ∈ text, character.toNat < 128

instance (text : Text) : Decidable (IsAscii text) :=
  decidable_of_iff (text.all fun character => character.toNat < 128) (by simp [IsAscii])

theorem utf8EncodeChar_length (character : Char) :
    1 ≤ (String.utf8EncodeChar character).length ∧
      ((String.utf8EncodeChar character).length = 1 ↔ character.toNat < 128) := by
  have value : character.val.toNat = character.toNat := rfl
  fun_cases String.utf8EncodeChar character with
  | case1 number small => simp; omega
  | case2 number large medium => simp; omega
  | case3 number large larger medium => simp; omega
  | case4 number large larger largest => simp; omega

theorem length_le_encodeUtf8_length (text : Text) :
    text.length ≤ (encodeUtf8 text).length := by
  induction text with
  | nil => simp
  | cons character text induction =>
      have one := (utf8EncodeChar_length character).1
      rw [encodeUtf8_cons, List.length_append, List.length_cons]
      omega

/-- Only ASCII text has as many bytes as characters. -/
theorem encodeUtf8_length_eq_iff {text : Text} :
    (encodeUtf8 text).length = text.length ↔ IsAscii text := by
  induction text with
  | nil => simp [IsAscii, encodeUtf8]
  | cons character text induction =>
      rcases utf8EncodeChar_length character with ⟨one, exactly⟩
      have atLeast := length_le_encodeUtf8_length text
      rw [encodeUtf8_cons, List.length_append, List.length_cons]
      constructor
      · intro counted
        have first : (String.utf8EncodeChar character).length = 1 := by omega
        have rest : (encodeUtf8 text).length = text.length := by omega
        exact List.forall_mem_cons.mpr ⟨exactly.mp first, induction.mp rest⟩
      · intro ascii
        rcases List.forall_mem_cons.mp ascii with ⟨small, rest⟩
        have first := exactly.mpr small
        have others := induction.mpr rest
        omega

def asciiText (bytes : Bytes) : Text := bytes.map fun byte => Char.ofNat byte.toNat

theorem encodeUtf8_asciiText {bytes : Bytes} (isAscii : ∀ byte ∈ bytes, byte.toNat < 128) :
    encodeUtf8 (asciiText bytes) = bytes := by
  induction bytes with
  | nil => rfl
  | cons byte bytes induction =>
      have bounded := isAscii byte List.mem_cons_self
      have value : (Char.ofNat byte.toNat).toNat = byte.toNat := by
        rw [Char.toNat_ofNat, if_pos (.inl (by omega))]
      have rest : encodeUtf8 (asciiText bytes) = bytes :=
        induction fun other among => isAscii other (List.mem_cons_of_mem _ among)
      rw [asciiText, List.map_cons, encodeUtf8_cons]
      rcases utf8EncodeChar_cases (Char.ofNat byte.toNat) with ⟨_, single⟩ | ⟨large, _⟩
      · rw [single, value, UInt8.ofNat_toNat]
        exact congrArg (byte :: ·) rest
      · omega

theorem encodeUtf8_split {text : Text} {byte : UInt8} {front back : Bytes}
    (isAscii : byte.toNat < 128) (split : encodeUtf8 text = front ++ byte :: back) :
    ∃ before after, text = before ++ Char.ofNat byte.toNat :: after ∧
      encodeUtf8 before = front ∧ encodeUtf8 after = back := by
  induction text generalizing front with
  | nil => simp [encodeUtf8] at split
  | cons character text induction =>
      rw [encodeUtf8_cons] at split
      rcases utf8EncodeChar_cases character with ⟨small, single⟩ | ⟨_, large⟩
      · rw [single, List.singleton_append] at split
        cases front with
        | nil =>
            injection split with here rest
            have same : Char.ofNat byte.toNat = character := by
              rw [← here, UInt8.toNat_ofNat_of_lt' (by omega : character.toNat < 256),
                Char.ofNat_toNat]
            exact ⟨[], text, by rw [same]; rfl, rfl, rest⟩
        | cons other front =>
            injection split with here rest
            rcases induction rest with ⟨before, after, rfl, encoded, encoded'⟩
            refine ⟨character :: before, after, rfl, ?_, encoded'⟩
            rw [encodeUtf8_cons, single, encoded, here]
            rfl
      · -- The byte lies behind the whole encoding of the character.
        rcases List.append_eq_append_iff.mp split with
          ⟨between, isFront, rest⟩ | ⟨between, whole, rest⟩
        · rcases induction rest with ⟨before, after, rfl, encoded, encoded'⟩
          refine ⟨character :: before, after, rfl, ?_, encoded'⟩
          rw [encodeUtf8_cons, encoded, isFront]
        · cases between with
          | nil =>
              rw [List.nil_append] at rest
              rw [List.append_nil] at whole
              have deeper : encodeUtf8 text = [] ++ byte :: back := rest.symm
              rcases induction deeper with ⟨before, after, rfl, encoded, encoded'⟩
              refine ⟨character :: before, after, rfl, ?_, encoded'⟩
              rw [encodeUtf8_cons, encoded, List.append_nil, whole]
          | cons other between =>
              injection rest with here _
              have bounded := large other (by rw [whole]; simp)
              rw [← here] at bounded
              omega

end Foundation
