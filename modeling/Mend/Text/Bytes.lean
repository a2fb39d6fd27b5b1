/-!
# Texts as bytes

Where bytes need not be text, a sequence of bytes is written as a list of characters, one for each
byte and all of them below U+0100. `decode?` reads the text that such a sequence spells in UTF-8.
-/

namespace Mend.Text

/-- Bytes, each as a character of its own. -/
def ofBytes (bytes : ByteArray) : List Char := bytes.toList.map fun b => Char.ofNat b.toNat

/-- The bytes of a text, each as a character of its own. -/
def encode (s : List Char) : List Char := ofBytes (String.ofList s).toUTF8

/-- The text that bytes spell, if they spell one. -/
def decode? (s : List Char) : Option String :=
  String.fromUTF8? ⟨(s.map fun c => UInt8.ofNat c.toNat).toArray⟩

end Mend.Text
