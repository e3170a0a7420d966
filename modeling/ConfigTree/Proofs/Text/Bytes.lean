import Mathlib.Data.List.Basic
import Mathlib.Order.Basic

/-!
# The order of texts

Names are put in order by their characters, and that is the order of their bytes
in UTF-8 (`bytes_lt_iff`): a character with a longer code comes behind every
character with a shorter one, and the first bytes of the two tell them apart.
-/

namespace ConfigTree.Text

/-- The bytes of a text. -/
def bytes (text : String) : List UInt8 :=
  text.toUTF8.data.toList

private theorem bytes_eq
    (text : String) :
    bytes text = text.toList.flatMap String.utf8EncodeChar := by
  have encoded : text.toList.utf8Encode = text.toUTF8 :=
    String.utf8Encode_toList
  rw [bytes, ← encoded, List.utf8Encode, List.data_toByteArray]

/-- The codes of two characters are in the order of the characters, whatever
follows them. -/
theorem utf8EncodeChar_append_lt
    {first second : Char} (less : first < second) (after other : List UInt8) :
    String.utf8EncodeChar first ++ after <
      String.utf8EncodeChar second ++ other := by
  have lessNumber : first.val.toNat < second.val.toNat :=
    UInt32.lt_iff_toNat_lt.mp less
  have bound : second.val.toNat < 1114112 := by
    have valid := second.valid
    unfold UInt32.isValidChar Nat.isValidChar at valid
    omega
  unfold String.utf8EncodeChar
  generalize first.val.toNat = low at *
  generalize second.val.toNat = high at *
  dsimp only
  split_ifs <;>
    simp (disch := omega)
      only [List.cons_append, List.nil_append, List.cons_lt_cons_iff,
        UInt8.lt_iff_toNat_lt, ← UInt8.toNat_inj, UInt8.toNat_ofNat',
        Nat.mod_eq_of_lt]
  all_goals omega

private theorem utf8EncodeChar_ne_nil
    (c : Char) :
    String.utf8EncodeChar c ≠ [] := by
  unfold String.utf8EncodeChar
  dsimp only
  split_ifs <;> exact List.cons_ne_nil _ _

private theorem append_lt_append_left
    (before : List UInt8) {first second : List UInt8} (less : first < second) :
    before ++ first < before ++ second := by
  induction before with
  | nil => exact less
  | cons byte rest inductionHypothesis =>
      exact List.cons_lt_cons_iff.mpr (Or.inr ⟨rfl, inductionHypothesis⟩)

private theorem flatMap_utf8EncodeChar_lt :
    ∀ {first second : List Char}, first < second →
      first.flatMap String.utf8EncodeChar < second.flatMap String.utf8EncodeChar
  | [], c :: rest, _ => by
      rw [List.flatMap_nil, List.flatMap_cons]
      obtain ⟨byte, others, code⟩ :=
        List.exists_cons_of_ne_nil (utf8EncodeChar_ne_nil c)
      rw [code]
      exact List.nil_lt_cons _ _
  | c :: rest, other :: later, less => by
      rw [List.flatMap_cons, List.flatMap_cons]
      rcases List.cons_lt_cons_iff.mp less with here | ⟨rfl, behind⟩
      · exact utf8EncodeChar_append_lt here _ _
      · exact append_lt_append_left _ (flatMap_utf8EncodeChar_lt behind)

private theorem bytes_lt_of_lt
    {first second : String} (less : first < second) :
    bytes first < bytes second := by
  rw [bytes_eq, bytes_eq]
  exact flatMap_utf8EncodeChar_lt (String.lt_iff.mp less)

/-- Texts are in the order of their bytes. -/
theorem bytes_lt_iff
    {first second : String} :
    bytes first < bytes second ↔ first < second := by
  constructor
  · intro lessBytes
    by_contra notLess
    by_cases greater : second < first
    · exact List.lt_asymm (bytes_lt_of_lt greater) lessBytes
    · obtain rfl : first = second :=
        String.le_antisymm (String.not_lt.mp greater) (String.not_lt.mp notLess)
      exact List.lt_irrefl _ lessBytes
  · exact bytes_lt_of_lt

end ConfigTree.Text
