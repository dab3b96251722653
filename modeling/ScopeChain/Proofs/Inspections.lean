import ScopeChain.Proofs.Delimiters
import ScopeChain.RuntimeError

/-!
Tokens and errors can be told from their inspected texts. A quoted text ends itself: what stands for
a character in it begins with no other character's form and never with a quote, so the quote that
closes it is the first one that no backslash stands before. Then only numbers between delimiters
follow.
-/
namespace ScopeChain

namespace Text

/-- The last digit of a number in hexadecimal, and the digits before it. -/
theorem hexadecimal_eq (n : Nat) : Nat.toDigits 16 n =
    (if n < 16 then [] else Nat.toDigits 16 (n / 16)) ++ [(n % 16).digitChar] := by
  rw [Nat.toDigits_eq_if (by decide)]
  split
  · next h => rw [Nat.mod_eq_of_lt h, List.nil_append]
  · rfl

theorem not_mem_hexadecimal (n : Nat) : '\x7d' ∉ Nat.toDigits 16 n := by
  induction n using Nat.strongRecOn with
  | ind n ih =>
    have hlast : '\x7d' ≠ (n % 16).digitChar := (Nat.digitChar_ne _ (by decide)).symm
    rw [hexadecimal_eq]
    split
    · simp [hlast]
    · have hrest : '\x7d' ∉ Nat.toDigits 16 (n / 16) := ih (n / 16) (by omega)
      simp [hlast, hrest]

theorem digitChar_inj : ∀ i < 16, ∀ j < 16, Nat.digitChar i = Nat.digitChar j → i = j := by decide

theorem hexadecimal_inj {m n : Nat} (h : Nat.toDigits 16 m = Nat.toDigits 16 n) : m = n := by
  induction m using Nat.strongRecOn generalizing n with
  | ind m ih =>
    rw [hexadecimal_eq, hexadecimal_eq n] at h
    obtain ⟨hrest, hlast⟩ := List.append_inj' h rfl
    have hmod : m % 16 = n % 16 :=
      digitChar_inj _ (Nat.mod_lt m (by decide)) _ (Nat.mod_lt n (by decide)) (by simpa using hlast)
    split at hrest <;> split at hrest
    · omega
    · exact absurd hrest.symm Nat.toDigits_ne_nil
    · exact absurd hrest Nat.toDigits_ne_nil
    · have hdiv : m / 16 = n / 16 := ih (m / 16) (by omega) hrest
      omega

end Text

namespace Quoted

variable {c d : Char} {l m r s : List Char}

/-- The characters that are written as a backslash and a letter, with their letters. -/
def letters : List (Char × Char) :=
  [('\x00', '0'), ('\t', 't'), ('\r', 'r'), ('\n', 'n'), ('"', '"'), ('\\', '\\')]

theorem letters_inj : ∀ p ∈ letters, ∀ q ∈ letters, p.2 = q.2 → p.1 = q.1 := by decide

/-- The letter of a number in hexadecimal is not among them. -/
theorem letters_ne : ∀ p ∈ letters, p.2 ≠ 'u' := by decide

/-- What can stand for a character in a quoted text. -/
inductive Escapes : Char → List Char → Prop
  | letter {c x : Char} (h : (c, x) ∈ letters) : Escapes c ['\\', x]
  | shown {c : Char} (hquote : c ≠ '"') (hbackslash : c ≠ '\\') : Escapes c [c]
  | number {c : Char} : Escapes c (numbered c)

theorem escapes_escape (c : Char) : Escapes c (escape c) := by
  unfold escape
  split
  case h_7 hquote hbackslash =>
    split
    · exact .shown hquote hbackslash
    · exact .number
  all_goals exact .letter (by decide)

theorem Escapes.exists_cons (h : Escapes c l) : ∃ x m, l = x :: m ∧ x ≠ '"' := by
  cases h with
  | letter _ => exact ⟨_, _, rfl, by decide⟩
  | shown hquote _ => exact ⟨_, _, rfl, hquote⟩
  | number => exact ⟨_, _, rfl, by decide⟩

theorem numbered_append_inj (h : numbered c ++ r = numbered d ++ s) : c = d ∧ r = s := by
  simp only [numbered, List.cons_append, List.append_assoc, List.nil_append, List.cons.injEq,
    true_and] at h
  obtain ⟨hdigits, hrest⟩ :=
    (Text.append_delimiter_inj (Text.not_mem_hexadecimal _) (Text.not_mem_hexadecimal _)).mp h
  exact ⟨Char.toNat_inj.mp (Text.hexadecimal_inj hdigits), hrest⟩

/-- No form of a character is the beginning of a form of another. -/
theorem Escapes.append_inj (hc : Escapes c l) (hd : Escapes d m) (h : l ++ r = m ++ s) :
    c = d ∧ r = s := by
  cases hc with
  | letter hc =>
    cases hd with
    | letter hd =>
      obtain ⟨hletter, hrest⟩ := by simpa using h
      exact ⟨letters_inj _ hc _ hd hletter, hrest⟩
    | shown _ hbackslash => simp [Ne.symm hbackslash] at h
    | number =>
      obtain ⟨hletter, -⟩ := List.cons_eq_cons.mp (List.cons_eq_cons.mp h).2
      exact absurd hletter (letters_ne _ hc)
  | shown hquote hbackslash =>
    cases hd with
    | letter _ => simp [hbackslash] at h
    | shown _ _ => simpa using h
    | number => simp [numbered, hbackslash] at h
  | number =>
    cases hd with
    | letter hd =>
      obtain ⟨hletter, -⟩ := List.cons_eq_cons.mp (List.cons_eq_cons.mp h).2
      exact absurd hletter.symm (letters_ne _ hd)
    | shown _ hbackslash => simp [numbered, Ne.symm hbackslash] at h
    | number => exact numbered_append_inj h

/-- The quote that ends a quoted text. -/
theorem flatMap_escape_append_inj {cs ds : List Char} :
    cs.flatMap escape ++ '"' :: r = ds.flatMap escape ++ '"' :: s ↔ cs = ds ∧ r = s := by
  refine ⟨fun h => ?_, fun ⟨hcs, hr⟩ => by rw [hcs, hr]⟩
  induction cs generalizing ds with
  | nil =>
    cases ds with
    | nil => simpa using h
    | cons d ds =>
      obtain ⟨x, m, hd, hx⟩ := (escapes_escape d).exists_cons
      simp [hd, Ne.symm hx] at h
  | cons c cs ih =>
    cases ds with
    | nil =>
      obtain ⟨x, m, hc, hx⟩ := (escapes_escape c).exists_cons
      simp [hc, hx] at h
    | cons d ds =>
      rw [List.flatMap_cons, List.flatMap_cons, List.append_assoc, List.append_assoc] at h
      obtain ⟨rfl, hrest⟩ := (escapes_escape c).append_inj (escapes_escape d) h
      obtain ⟨rfl, rfl⟩ := ih hrest
      exact ⟨rfl, rfl⟩

/-- Two texts that begin with quoted ones. -/
theorem encode_append_inj {cs ds : List Char} :
    encode cs ++ r = encode ds ++ s ↔ cs = ds ∧ r = s := by
  simp only [encode, List.cons_append, List.append_assoc, List.nil_append, List.cons.injEq,
    true_and, flatMap_escape_append_inj]

end Quoted

theorem toList_quoted (x : String) : (quoted x).toList = Quoted.encode x.toList := by
  rw [quoted, String.toList_ofList]

namespace Span

theorem toList_text (a : Span) : a.text.toList =
    Nat.toDigits 10 a.start.toNat ++ '.' :: '.' :: Nat.toDigits 10 a.stop.toNat := by
  simp [text]

/-- Two texts that begin with spans. -/
theorem text_append_inj {a b : Span} {x : Char} {r s : List Char} (hx : x.isDigit = false) :
    a.text.toList ++ x :: r = b.text.toList ++ x :: s ↔ a = b ∧ r = s := by
  obtain ⟨start, stop⟩ := a
  obtain ⟨start', stop'⟩ := b
  simp only [toList_text, List.append_assoc, List.cons_append]
  rw [Text.word_append_inj (by decide), List.cons.injEq, Text.word_append_inj hx, mk.injEq]
  simp only [true_and, and_assoc]

end Span

/-- A token's lexeme, line and span, each followed by something else. -/
theorem Token.toList_doc (t : Token) (layout : Layout) : (t.doc layout).toList =
    Quoted.encode t.lexeme.toList ++ (" @ line ".toList ++
      (Nat.toDigits 10 t.line.toNat ++ ' ' :: '(' :: (t.span.text.toList ++ [')']))) := by
  simp [doc, Doc.text, toList_quoted]

theorem Token.doc_eq_iff (a b : Token) (layout : Layout) : a.doc layout = b.doc layout ↔ a = b := by
  obtain ⟨lexeme, line, span⟩ := a
  obtain ⟨lexeme', line', span'⟩ := b
  rw [← String.toList_inj, toList_doc, toList_doc, Quoted.encode_append_inj,
    List.append_cancel_left_eq, Text.word_append_inj (by decide), List.cons.injEq,
    Span.text_append_inj (by decide), String.toList_inj, mk.injEq]
  simp only [true_and, and_true]

namespace RuntimeErrorKind

/-- In either layout the text of a kind is its quoted text between others that the layout fixes. -/
theorem exists_toList_doc (layout : Layout) : ∃ l l' post : List Char,
    (∀ name, ((undefinedVariable name).doc layout).toList =
      'U' :: (l ++ (Quoted.encode name.toList ++ post))) ∧
    ∀ message, ((custom message).doc layout).toList =
      'C' :: (l' ++ (Quoted.encode message.toList ++ post)) := by
  cases layout with
  | compact =>
    refine ⟨"ndefinedVariable \x7b name: ".toList, "ustom \x7b message: ".toList, " \x7d".toList,
      ?_, ?_⟩
    all_goals
      intro text
      simp [doc, Doc.record, Doc.group, Doc.labelled, Doc.text, toList_quoted]
  | indented depth =>
    refine ⟨("ndefinedVariable \x7b\n" ++ Doc.margin (depth + 1) ++ "name: ").toList,
      ("ustom \x7b\n" ++ Doc.margin (depth + 1) ++ "message: ").toList,
      (",\n" ++ Doc.margin depth ++ "\x7d").toList, ?_, ?_⟩
    all_goals
      intro text
      simp [doc, Doc.record, Doc.group, Doc.line, Doc.labelled, Doc.text, toList_quoted]

/-- Two texts that begin with kinds. -/
theorem doc_append_inj {k k' : RuntimeErrorKind} {layout : Layout} {r s : List Char} :
    (k.doc layout).toList ++ r = (k'.doc layout).toList ++ s ↔ k = k' ∧ r = s := by
  obtain ⟨l, l', post, hundefined, hcustom⟩ := exists_toList_doc layout
  cases k <;> cases k' <;>
    simp [hundefined, hcustom, Quoted.encode_append_inj, String.toList_inj]

end RuntimeErrorKind

namespace RuntimeError

/-- In either layout the text of an error is those of its parts between others that the layout
fixes. A number is followed by a comma or by a blank. -/
theorem exists_toList_doc (layout : Layout) :
    ∃ (inner : Layout) (l l' l'' post : List Char) (x : Char), x.isDigit = false ∧
      ∀ e : RuntimeError, (e.doc layout).toList =
        l ++ ((e.kind.doc inner).toList ++ (l' ++ (Nat.toDigits 10 e.line.toNat ++
          ',' :: (l'' ++ (e.span.text.toList ++ x :: post))))) := by
  cases layout with
  | compact =>
    refine ⟨.compact, "EvalError \x7b kind: ".toList, ", line: ".toList, " span: ".toList,
      ['\x7d'], ' ', by decide, fun e => ?_⟩
    simp [doc, Doc.record, Doc.group, Doc.labelled, Doc.text]
  | indented depth =>
    refine ⟨.indented (depth + 1),
      ("EvalError \x7b\n" ++ Doc.margin (depth + 1) ++ "kind: ").toList,
      (",\n" ++ Doc.margin (depth + 1) ++ "line: ").toList,
      ("\n" ++ Doc.margin (depth + 1) ++ "span: ").toList,
      ("\n" ++ Doc.margin depth ++ "\x7d").toList, ',', by decide, fun e => ?_⟩
    simp [doc, Doc.record, Doc.group, Doc.line, Doc.labelled, Doc.text]

theorem doc_eq_iff (e f : RuntimeError) (layout : Layout) :
    e.doc layout = f.doc layout ↔ e = f := by
  obtain ⟨inner, l, l', l'', post, x, hx, htext⟩ := exists_toList_doc layout
  obtain ⟨kind, line, span⟩ := e
  obtain ⟨kind', line', span'⟩ := f
  rw [← String.toList_inj, htext, htext, List.append_cancel_left_eq,
    RuntimeErrorKind.doc_append_inj, List.append_cancel_left_eq, Text.word_append_inj (by decide),
    List.append_cancel_left_eq, Span.text_append_inj hx, mk.injEq]
  simp only [and_true]

/-- Two tokens or two errors have the same inspected text only if they are equal, whatever their
names and messages contain. -/
theorem inspections_tell_apart :
    (∀ (a b : Token) layout, a.doc layout = b.doc layout ↔ a = b) ∧
      ∀ (e f : RuntimeError) layout, e.doc layout = f.doc layout ↔ e = f :=
  ⟨Token.doc_eq_iff, doc_eq_iff⟩

/-- A quote in a lexeme does not end the quoted text. -/
example : (Token.identifier "\" @" 4).doc .compact = "\"\\\" @\" @ line 4 (0..0)" := by
  decide +kernel

end RuntimeError

end ScopeChain
