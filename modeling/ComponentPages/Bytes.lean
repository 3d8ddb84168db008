import ComponentPages.Text.Basic

/-!
Contents of files: bytes, their reading as UTF-8 text, and the line breaks of text files.
-/
namespace ComponentPages

abbrev Bytes := List UInt8

namespace Bytes

def ofText (text : Text) : Bytes := (String.ofList text).toUTF8.toList

/-- The text that bytes are the UTF-8 form of. -/
def toText? (bytes : Bytes) : Option Text := (String.fromUTF8? ⟨bytes.toArray⟩).map String.toList

/-- Carriage returns, alone or before a line feed, become line feeds. -/
def unifyBreaks : Text → Text
  | '\r' :: '\n' :: rest => '\n' :: unifyBreaks rest
  | '\r' :: rest => '\n' :: unifyBreaks rest
  | c :: rest => c :: unifyBreaks rest
  | [] => []

end Bytes

end ComponentPages
