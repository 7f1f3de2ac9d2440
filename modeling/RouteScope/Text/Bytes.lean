/-!
# Bytes of a text

A text has a form in bytes, its UTF-8 form, and only some rows of bytes are the
form of a text.

A syntax tree names a part of its source by the offsets of its first byte and
of the byte just past it, counted in the UTF-8 form of the source.  A range
is a part of the text only when both offsets lie between two characters.
-/

namespace RouteScope.Text

/-- The bytes of the text in UTF-8. -/
def bytes (text : String) : List UInt8 :=
  text.toByteArray.data.toList

/-- The text that has the bytes in UTF-8, if there is one. -/
def ofBytes? (bytes : List UInt8) : Option String :=
  String.fromUTF8? bytes.toByteArray

/-- The number of bytes of the text in UTF-8. -/
def byteLength : List Char → Nat
  | [] => 0
  | c :: text => c.utf8Size + byteLength text

/-- The text behind its first `n` bytes, or `none` if the text is shorter or
the cut falls inside a character. -/
def dropBytes? : Nat → List Char → Option (List Char)
  | 0, text => some text
  | _ + 1, [] => none
  | n + 1, c :: text =>
      if c.utf8Size ≤ n + 1 then dropBytes? (n + 1 - c.utf8Size) text else none

/-- The first `n` bytes of the text, or `none` if the text is shorter or the
cut falls inside a character. -/
def takeBytes? : Nat → List Char → Option (List Char)
  | 0, _ => some []
  | _ + 1, [] => none
  | n + 1, c :: text =>
      if c.utf8Size ≤ n + 1 then
        (takeBytes? (n + 1 - c.utf8Size) text).map (c :: ·)
      else
        none

/-- The part of the text from byte `start` up to byte `stop`, or `none` if that
is no range of whole characters. -/
def byteRange? (text : List Char) (start stop : Nat) : Option (List Char) :=
  if start ≤ stop then (dropBytes? start text).bind (takeBytes? (stop - start)) else none

theorem ofBytes?_eq_some_iff {text : String} {form : List UInt8} :
    ofBytes? form = some text ↔ form = bytes text := by
  have hform : form.toByteArray = text.toByteArray ↔ form = bytes text := by
    rw [ByteArray.ext_iff, List.data_toByteArray, bytes, ← Array.toList_inj]
  rw [← hform, ofBytes?, String.fromUTF8?]
  constructor
  · intro h
    split at h
    · obtain rfl := Option.some.inj h
      rfl
    · exact absurd h.symm (Option.some_ne_none text)
  · intro h
    rw [h, dif_pos text.isValidUTF8]
    rfl

@[simp] theorem byteLength_nil : byteLength [] = 0 := rfl

@[simp] theorem byteLength_cons (c : Char) (text : List Char) :
    byteLength (c :: text) = c.utf8Size + byteLength text := rfl

@[simp] theorem byteLength_append (s t : List Char) :
    byteLength (s ++ t) = byteLength s + byteLength t := by
  induction s with
  | nil => simp
  | cons c s ih =>
      rw [List.cons_append, byteLength_cons, byteLength_cons, ih]
      omega

end RouteScope.Text
