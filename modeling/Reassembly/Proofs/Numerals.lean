import Mathlib.Data.List.TakeDrop
import Mathlib.Data.List.TakeWhile
import Reassembly.Json.Printer
import Reassembly.Json.Reader

/-!
Printed numbers are read back. The digits of a number stand without a leading zero, so the reader of
numbers, which takes nothing behind one, finds all of them, if what stands behind them goes on with nothing
that a number may have; and no digit starts another kind of value.
-/

namespace Reassembly.Json

namespace Printer

open Reader (digitsValue)

def figures : List Char := ['0', '1', '2', '3', '4', '5', '6', '7', '8', '9']

theorem digit_mem_figures : ∀ n < 10, digit n ∈ figures := by decide

theorem toNat_digit : ∀ n < 10, (digit n).toNat - '0'.toNat = n := by decide

theorem digit_ne_zero : ∀ n < 10, 0 < n → digit n ≠ '0' := by decide

theorem mem_figures_of_mem_decimal (n : Nat) : ∀ c ∈ decimal n, c ∈ figures := by
  induction n using decimal.induct with
  | case1 n small =>
    rw [decimal, if_pos small]
    intro c here
    rw [List.mem_singleton.mp here]
    exact digit_mem_figures n small
  | case2 n large ih =>
    rw [decimal, if_neg large]
    intro c here
    rcases List.mem_append.mp here with front | last
    · exact ih c front
    · rw [List.mem_singleton.mp last]
      exact digit_mem_figures _ (Nat.mod_lt n (by decide))

theorem digitsValue_decimal (n : Nat) : digitsValue (decimal n) = n := by
  induction n using decimal.induct with
  | case1 n small =>
    rw [decimal, if_pos small, digitsValue]
    simp only [List.foldl_cons, List.foldl_nil, Nat.zero_mul, Nat.zero_add]
    exact toNat_digit n small
  | case2 n large ih =>
    have last := toNat_digit _ (Nat.mod_lt n (by decide : 0 < 10))
    rw [digitsValue] at ih
    rw [decimal, if_neg large, digitsValue, List.foldl_append, ih, List.foldl_cons, List.foldl_nil, last]
    omega

theorem decimal_zero : decimal 0 = ['0'] := by
  rw [decimal]
  rfl

theorem head_decimal (n : Nat) : ∃ c rest, decimal n = c :: rest ∧ (c = '0' → n = 0) := by
  induction n using decimal.induct with
  | case1 n small =>
    refine ⟨digit n, [], by rw [decimal, if_pos small], fun zero => ?_⟩
    by_contra positive
    exact digit_ne_zero n small (Nat.pos_of_ne_zero positive) zero
  | case2 n large ih =>
    obtain ⟨c, rest, front, leading⟩ := ih
    refine ⟨c, rest ++ [digit (n % 10)], by rw [decimal, if_neg large, front, List.cons_append],
      fun zero => ?_⟩
    have := leading zero
    omega

end Printer

namespace Reader

open Printer (decimal decimal_zero figures mem_figures_of_mem_decimal head_decimal digitsValue_decimal)

theorem isDigit_of_mem_figures {c : Char} (figure : c ∈ figures) : c.isDigit = true := by
  have all : figures.all Char.isDigit = true := by decide
  exact List.all_eq_true.mp all c figure

def continues (c : Char) : Bool := c.isDigit || c == '.' || c == 'e' || c == 'E'

def Stops (rest : List Char) : Prop := ∀ c ∈ rest.head?, continues c = false

theorem stops_nil : Stops [] := nofun

theorem stops_cons {c : Char} (other : continues c = false) (rest : List Char) : Stops (c :: rest) := by
  rintro d ⟨⟩
  exact other

section
variable {rest : List Char} (stops : Stops rest)
include stops

theorem Stops.head_ne {c : Char} {tail : List Char} (front : rest = c :: tail) :
    c.isDigit = false ∧ c ≠ '.' ∧ c ≠ 'e' ∧ c ≠ 'E' := by
  have other := stops c (front ▸ rfl)
  simpa [continues, and_assoc] using other

theorem span_decimal (n : Nat) : (decimal n ++ rest).span Char.isDigit = (decimal n, rest) := by
  have all : ∀ c ∈ decimal n, c.isDigit = true := fun c here =>
    isDigit_of_mem_figures (mem_figures_of_mem_decimal n c here)
  have ends : rest.takeWhile Char.isDigit = [] ∧ rest.dropWhile Char.isDigit = rest := by
    cases front : rest with
    | nil => exact ⟨rfl, rfl⟩
    | cons c tail => simp [(stops.head_ne front).1]
  rw [List.span_eq_takeWhile_dropWhile, List.takeWhile_append_of_pos all, List.dropWhile_append_of_pos all,
    ends.1, ends.2, List.append_nil]

theorem fraction_stops : fraction rest = some (false, rest) := by
  cases front : rest with
  | nil => rfl
  | cons c tail =>
    rw [fraction]
    rintro text ⟨⟩
    exact (stops.head_ne front).2.1 rfl

theorem exponent_stops : exponent rest = some (false, rest) := by
  cases front : rest with
  | nil => rfl
  | cons c tail =>
    have other := (stops.head_ne front).2.2
    unfold exponent
    exact if_neg (not_or.mpr other)

theorem unsigned_decimal (n : Nat) : unsigned (decimal n ++ rest) = some (.natural n, rest) := by
  obtain ⟨c, tail, printed, leading⟩ := head_decimal n
  by_cases zero : c = '0'
  · obtain rfl := leading zero
    rw [decimal_zero, List.cons_append, List.nil_append, unsigned]
    simp [fraction_stops stops, exponent_stops stops, digitsValue]
  · have read : digits (decimal n ++ rest) = some (decimal n, rest) := by
      rw [digits, span_decimal stops, printed]
    have value := digitsValue_decimal n
    rw [printed, List.cons_append] at read
    rw [printed, List.cons_append, unsigned, read, ← printed]
    · simp [fraction_stops stops, exponent_stops stops, value]
    · intro text same
      exact zero (List.cons.inj same).1

theorem number_decimal (n : Nat) : number (decimal n ++ rest) = some (.natural n, rest) := by
  rw [number, unsigned_decimal stops]
  intro text signed
  obtain ⟨c, tail, printed, _⟩ := head_decimal n
  have figure := mem_figures_of_mem_decimal n c (printed ▸ List.mem_cons_self)
  rw [printed, List.cons_append] at signed
  rw [(List.cons.inj signed).1] at figure
  exact absurd figure (by decide)

end

theorem value_figure (limit depth : Nat) {c : Char} (figure : c ∈ figures) (rest : List Char) :
    value limit (depth + 1) (c :: rest) =
      (number (c :: rest)).map fun (found, rest) => (.number found, rest) := by
  simp only [figures, List.mem_cons, List.not_mem_nil, or_false] at figure
  obtain rfl | rfl | rfl | rfl | rfl | rfl | rfl | rfl | rfl | rfl := figure <;> rfl

theorem value_decimal {rest : List Char} (stops : Stops rest) (limit depth n : Nat) :
    value limit (depth + 1) (decimal n ++ rest) = some (.natural n, rest) := by
  obtain ⟨c, tail, printed, _⟩ := head_decimal n
  have figure := mem_figures_of_mem_decimal n c (printed ▸ List.mem_cons_self)
  have read := number_decimal stops n
  rw [printed, List.cons_append] at read ⊢
  rw [value_figure limit depth figure, read]
  rfl

end Reader

end Reassembly.Json
