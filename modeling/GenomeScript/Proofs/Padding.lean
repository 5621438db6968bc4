import GenomeScript.Operator
import GenomeScript.Proofs.Listing
import GenomeScript.Proofs.Trimming

/-!
# Operands between blanks

An operand can be written as text, with any blanks around it, and the text stands for what the
operand stands for. Nothing at all is written as blanks, which count as zero. A number is written in
digits, which hold no blank and are read back, from the least value to the greatest. A text is written
as it is, and trimming takes the new blanks off together with its own, whether or not it spells a
number. Operators look at nothing but the numbers that their operands stand for, so an operand and its
text are interchangeable there.
-/

namespace GenomeScript

open Text (Blanks)

namespace Operand

/-- The operand as text between blanks. -/
def padded (before after : Blanks) (operand : Operand) : Operand :=
  .text (before.text ++ operand.display ++ after.text)

/-- Blanks around a text do not change the number that it spells. -/
theorem numberOfText?_append_blanks (before after : Blanks) (text : String) :
    numberOfText? (before.text ++ text ++ after.text) = numberOfText? text := by
  have hchars : (before.text ++ text ++ after.text).toList =
      before.chars ++ text.toList ++ after.chars := by
    simp [Blanks.text]
  rw [numberOfText?, hchars, Text.trim_append_blanks, numberOfText?]

/-- The digits of a value spell that value. -/
theorem numberOfText?_render (value : Value) : numberOfText? (Numeral.render value) = some value := by
  obtain ⟨hne, hsolid⟩ := Numeral.isWord_render value
  rw [numberOfText?, Text.trim_eq_self_of_forall hsolid]
  split
  next hnil => exact absurd hnil hne
  next c cs hchars => rw [← hchars, Numeral.readValue_render, Except.toOption]

/-- The text of an operand spells the number that the operand stands for, if it stands for one. -/
theorem numberOfText?_display (operand : Operand) : numberOfText? operand.display = operand.coerce? := by
  cases operand with
  | absent => rfl
  | number value => exact numberOfText?_render value
  | text name => rfl

/-- An operand and its text between blanks stand for the same number, or both for none. -/
theorem coerce?_padded (before after : Blanks) (operand : Operand) :
    (operand.padded before after).coerce? = operand.coerce? := by
  rw [padded, coerce?, numberOfText?_append_blanks, numberOfText?_display]

end Operand

/-- An operator looks at nothing but the numbers that its operands stand for. -/
theorem Operator.apply_congr (op : Operator) {a b c d : Operand} (hleft : a.coerce? = c.coerce?)
    (hright : b.coerce? = d.coerce?) : op.apply a b = op.apply c d := by
  rw [apply_eq, apply_eq, hleft, hright]

/-- An operand that is written as text, with any blanks around it, stands for the same number as
before, or for none as before, and ends as the same value. Every operator gives the same result if one
of its operands is replaced by such a text, or the other, or both. -/
theorem Operand.padded_counts_alike (op : Operator) (a b : Operand)
    (before after before' after' : Blanks) :
    (a.padded before after).coerce? = a.coerce? ∧
      (a.padded before after).finish = a.finish ∧
      op.apply (a.padded before after) b = op.apply a b ∧
      op.apply a (b.padded before' after') = op.apply a b ∧
      op.apply (a.padded before after) (b.padded before' after') = op.apply a b := by
  have hleft := coerce?_padded before after a
  have hright := coerce?_padded before' after' b
  refine ⟨hleft, ?_, op.apply_congr hleft rfl, op.apply_congr rfl hright, op.apply_congr hleft hright⟩
  rw [finish, hleft, finish]

/-- The least value is read back between an ideographic space and a next-line character, and blanks
alone are zero. A space of no width is no blank. -/
example :
    (Operand.text "\u3000-9223372036854775808\u0085").coerce? = some Int64.minValue ∧
      (Operand.text "\u2029\u00a0").coerce? = some 0 ∧
      (Operand.text "\u200b7").coerce? = none := by decide +kernel

end GenomeScript
