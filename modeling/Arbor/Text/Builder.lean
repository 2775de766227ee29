import Arbor.Text.Basic

/-!
# Texts that grow at the end

A builder holds the pieces of a text that only ever gets longer, together with its
length in bytes, so that neither appending nor measuring walks over what was written
before. The length is kept equal to the measure of the text by the type itself.
-/
namespace Arbor

/-- A text under construction and its byte length. -/
structure TextBuilder where
  /-- The pieces written so far, the last one first. -/
  pieces : List Text
  /-- The number of bytes written so far. -/
  bytes : Nat
  bytes_eq : bytes = Text.byteLength pieces.reverse.flatten

namespace TextBuilder

/-- Nothing written yet. -/
def empty : TextBuilder :=
  ⟨[], 0, rfl⟩

instance : Inhabited TextBuilder :=
  ⟨empty⟩

/-- The text written so far. -/
def text (builder : TextBuilder) : Text :=
  builder.pieces.reverse.flatten

/-- Writes a text behind what was written before. -/
def append (builder : TextBuilder) (more : Text) : TextBuilder where
  pieces := more :: builder.pieces
  bytes := builder.bytes + Text.byteLength more
  bytes_eq := by simp [builder.bytes_eq]

@[simp] theorem text_empty : empty.text = [] := rfl

@[simp] theorem text_append (builder : TextBuilder) (more : Text) :
    (builder.append more).text = builder.text ++ more := by
  simp [text, append]

/-- The length that a builder keeps is that of its text. -/
theorem bytes_eq_byteLength (builder : TextBuilder) :
    builder.bytes = Text.byteLength builder.text :=
  builder.bytes_eq

end TextBuilder

end Arbor
