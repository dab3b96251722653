import ScopeChain.Proofs.Delimiters
import ScopeChain.RuntimeError

/-!
What can be told from the message of an error. Its line stands behind the last line break of the
message, whatever the name or the text of its kind contains, so the message tells the line and the
message of the kind. Of an undefined variable it tells the name.
-/
namespace ScopeChain

theorem RuntimeErrorKind.message_undefinedVariable_inj {x y : String} :
    (undefinedVariable x).message = (undefinedVariable y).message ↔ x = y :=
  (String.append_left_inj "'.").trans (String.append_right_inj "Undefined variable '")

namespace RuntimeError

/-- The line of an error in brackets. -/
def bracketed (line : UInt32) : List Char :=
  ['[', 'l', 'i', 'n', 'e', ' '] ++ (Nat.toDigits 10 line.toNat ++ [']'])

theorem toList_message (e : RuntimeError) :
    e.message.toList = e.kind.message.toList ++ '\n' :: bracketed e.line := by
  simp [message, bracketed]

theorem not_mem_bracketed (line : UInt32) : '\n' ∉ bracketed line := by
  have hdigits : '\n' ∉ Nat.toDigits 10 line.toNat := Text.not_mem_toDigits (by decide) _
  simp [bracketed, hdigits]

theorem bracketed_inj {m n : UInt32} : bracketed m = bracketed n ↔ m = n := by
  rw [bracketed, bracketed, List.append_cancel_left_eq, Text.word_append_inj (by decide),
    and_iff_left rfl]

theorem message_eq_iff (e f : RuntimeError) :
    e.message = f.message ↔ e.kind.message = f.kind.message ∧ e.line = f.line := by
  rw [← String.toList_inj, toList_message, toList_message,
    Text.delimiter_append_inj (not_mem_bracketed e.line) (not_mem_bracketed f.line),
    String.toList_inj, bracketed_inj]

/-- The messages of two errors are equal iff their kinds have the same message and their lines are
equal; those of two undefined variables, iff the names and the lines are equal. -/
theorem messages_tell_kind_and_line :
    (∀ e f : RuntimeError,
      e.message = f.message ↔ e.kind.message = f.kind.message ∧ e.line = f.line) ∧
    ∀ s t : Token, (undefinedVariable s).message = (undefinedVariable t).message ↔
      s.lexeme = t.lexeme ∧ s.line = t.line := by
  refine ⟨message_eq_iff, fun s t => ?_⟩
  rw [message_eq_iff]
  exact and_congr_left fun _ => RuntimeErrorKind.message_undefinedVariable_inj

/-- A text can imitate the message of a kind, but not that of a line. -/
example : (custom (.identifier "-" 2) "Undefined variable 'x'.").message =
    (undefinedVariable (.identifier "x" 2)).message := by decide

end RuntimeError

end ScopeChain
