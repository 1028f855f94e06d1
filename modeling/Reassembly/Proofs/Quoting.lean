import Reassembly.Json.Printer
import Reassembly.Json.Reader

/-!
Quoted texts are read back. The printer escapes a quote, a backslash and the control characters, the ones
without a short escape by their code unit; every other character stands for itself. No code unit that the
printer writes is half of a surrogate pair, so each denotes a character by itself.
-/

namespace Reassembly.Json.Reader

open Printer (digit escapeChar quote)

theorem hexValue?_digit : ∀ n < 16, hexValue? (digit n) = some n := by decide

theorem codeUnit?_digits {n : Nat} (small : n < 256) :
    codeUnit? '0' '0' (digit (n / 16)) (digit (n % 16)) = some n := by
  have zero : hexValue? '0' = some 0 := hexValue?_digit 0 (by decide)
  have high := hexValue?_digit (n / 16) (by omega)
  have low := hexValue?_digit (n % 16) (by omega)
  rw [codeUnit?, zero, high, low]
  simp only [Option.bind_eq_bind, Option.bind_some, Option.pure_def, Option.some.injEq]
  omega

def shortened : List Char := ['"', '\\', '\x08', '\x0c', '\n', '\r', '\t']

/-- How a character stands in a quoted text, and what the reader takes it for. -/
inductive Escapes (c : Char) : List Char → Piece → Prop
  | short {mark : Char} (denotes : shortEscape? mark = some c) : Escapes c ['\\', mark] (.char c)
  | unit (control : c.toNat < 0x20) :
    Escapes c ['\\', 'u', '0', '0', digit (c.toNat / 16), digit (c.toNat % 16)] (.unit c.toNat)
  | plain (printable : ¬ c.toNat < 0x20) (unquote : c ≠ '"') (unescape : c ≠ '\\') : Escapes c [c] (.char c)

def pieceOf (c : Char) : Piece := if c.toNat < 0x20 ∧ c ∉ shortened then .unit c.toNat else .char c

theorem escapes (c : Char) : Escapes c (escapeChar c) (pieceOf c) := by
  by_cases short : c ∈ shortened
  · simp only [shortened, List.mem_cons, List.not_mem_nil, or_false] at short
    obtain rfl | rfl | rfl | rfl | rfl | rfl | rfl := short <;> exact .short rfl
  -- No short escape: every test of the printer but the one for control characters fails.
  · have others := short
    simp only [shortened, List.mem_cons, List.not_mem_nil, or_false, not_or] at others
    obtain ⟨unquote, unescape, back, form, line, carriage, tab⟩ := others
    rw [escapeChar, if_neg unquote, if_neg unescape, if_neg back, if_neg form, if_neg line,
      if_neg carriage, if_neg tab, pieceOf]
    by_cases control : c.toNat < 0x20
    · rw [if_pos control, if_pos ⟨control, short⟩]
      exact .unit control
    · rw [if_neg control, if_neg fun both => control both.1]
      exact .plain control unquote unescape

theorem Escapes.pieces_append {c : Char} {printed : List Char} {piece : Piece}
    (escapes : Escapes c printed piece) (rest : List Char) :
    pieces (printed ++ rest) = (pieces rest).map fun (others, rest) => (piece :: others, rest) := by
  cases escapes with
  | @short mark denotes =>
    have unicode : mark ≠ 'u' := by
      rintro rfl
      cases denotes
    rw [List.cons_append, List.cons_append, List.nil_append, pieces]
    · rw [denotes]
      cases pieces rest <;> rfl
    · intro a b c d tail same
      exact absurd same unicode
  | unit control =>
    simp only [List.cons_append, List.nil_append]
    rw [pieces, codeUnit?_digits (by omega)]
    cases pieces rest <;> rfl
  | plain printable unquote unescape =>
    rw [List.cons_append, List.nil_append, pieces]
    · rw [if_neg (not_or.mpr ⟨printable, unescape⟩)]
      cases pieces rest <;> rfl
    · exact unquote
    · exact fun _ _ _ _ _ same _ => unescape same
    · exact fun _ _ same _ => unescape same

theorem pieces_quoted (text rest : List Char) :
    pieces (text.flatMap escapeChar ++ '"' :: rest) = some (text.map pieceOf, rest) := by
  induction text with
  | nil => rfl
  | cons c text ih =>
    rw [List.flatMap_cons, List.append_assoc, (escapes c).pieces_append, ih]
    rfl

theorem denote_unit {code : Nat} (small : code < 0xD800) (others : List Piece) :
    denote (.unit code :: others) = (denote others).map (Char.ofNat code :: ·) := by
  have leads : isLeading code = false := by simp [isLeading, Nat.not_le.mpr small]
  have trails : isTrailing code = false := by
    have := Nat.not_le.mpr (Nat.lt_trans small (by decide : 0xD800 < 0xDC00))
    simp [isTrailing, this]
  cases others with
  | nil => simp [denote, leads, trails]
  | cons piece others => cases piece <;> simp [denote, leads, trails]

theorem denote_pieceOf (text : List Char) : denote (text.map pieceOf) = some text := by
  induction text with
  | nil => rfl
  | cons c text ih =>
    rw [List.map_cons, pieceOf]
    split
    case isTrue control =>
      rw [denote_unit (Nat.lt_trans control.1 (by decide)), ih, Option.map_some, Char.ofNat_toNat]
    case isFalse => rw [denote, ih, Option.map_some]

theorem quote_append (text : String) (rest : List Char) :
    quote text ++ rest = '"' :: (text.toList.flatMap escapeChar ++ '"' :: rest) := by
  rw [quote, List.cons_append, List.append_assoc, List.cons_append, List.nil_append]

theorem string_quoted (text : String) (rest : List Char) :
    string (text.toList.flatMap escapeChar ++ '"' :: rest) = some (some text, rest) := by
  rw [string, pieces_quoted, Option.bind_eq_bind, Option.bind_some]
  simp only [denote_pieceOf, Option.map_some, String.ofList_toList, Option.pure_def]

end Reassembly.Json.Reader
