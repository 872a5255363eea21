/-!
Texts as bytes.

A text is a list of characters; outside it is a list of bytes. Reading accepts exactly what
writing produces.
-/

set_option autoImplicit false

namespace Calculator.Utf8

def encode (text : List Char) : List UInt8 := text.flatMap String.utf8EncodeChar

def decode? (bytes : List UInt8) : Option (List Char) :=
  (String.fromUTF8? bytes.toByteArray).map String.toList

theorem toByteArray_encode (text : List Char) :
    (encode text).toByteArray = (String.ofList text).toByteArray :=
  String.toByteArray_ofList.symm

theorem decode?_encode (text : List Char) : decode? (encode text) = some text := by
  rw [decode?, toByteArray_encode]
  have valid := (String.ofList text).isValidUTF8
  have read : String.fromUTF8? (String.ofList text).toByteArray = some (String.ofList text) := by
    unfold String.fromUTF8?
    rw [dif_pos valid]
    rfl
  rw [read, Option.map_some, String.toList_ofList]

theorem encode_of_decode? {bytes : List UInt8} {text : List Char}
    (read : decode? bytes = some text) : encode text = bytes := by
  obtain ⟨string, found, rfl⟩ := Option.map_eq_some_iff.mp read
  unfold String.fromUTF8? at found
  split at found
  case isFalse => contradiction
  case isTrue valid =>
    have same : string.toByteArray = bytes.toByteArray := by
      rw [← Option.some.inj found]
      rfl
    have encoded := toByteArray_encode string.toList
    rw [String.ofList_toList, same] at encoded
    have data := congrArg (fun array => array.data.toList) encoded
    simpa using data

theorem decode?_eq_some_iff {bytes : List UInt8} {text : List Char} :
    decode? bytes = some text ↔ bytes = encode text := by
  constructor
  · intro read
    exact (encode_of_decode? read).symm
  · rintro rfl
    exact decode?_encode text

def IsText (bytes : List UInt8) : Prop := ∃ text, bytes = encode text

theorem isText_iff {bytes : List UInt8} : IsText bytes ↔ (decode? bytes).isSome = true := by
  simp only [IsText, ← decode?_eq_some_iff, Option.isSome_iff_exists]

instance : DecidablePred IsText := fun _ => decidable_of_iff _ isText_iff.symm

theorem encode_append (left right : List Char) :
    encode (left ++ right) = encode left ++ encode right :=
  List.flatMap_append

end Calculator.Utf8
