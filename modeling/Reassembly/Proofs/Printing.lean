import Reassembly.Proofs.Numerals
import Reassembly.Proofs.Quoting

/-!
Printed values are read back, in either style. What the reader may take, a bracket's depth or an element,
each costs it a character of the text, so the length of a text is enough for both.
-/

namespace Reassembly.Json

inductive Value.Plain : Value → Prop
  | null : Plain .null
  | bool (value : Bool) : Plain (.bool value)
  | natural (n : Nat) : Plain (.natural n)
  | string (text : String) : Plain (.string text)
  | list {items : List Value} (each : ∀ item ∈ items, Plain item) : Plain (.list items)
  | record {members : List (String × Value)} (each : ∀ member ∈ members, Plain member.2) :
    Plain (.record members)

theorem Value.record_eq (members : List (String × Value)) :
    record members = .object (members.map (Prod.map some id)) := rfl

namespace Printer

def renderMember (style : Style) (member : Option String × Value) : List Char :=
  quote (member.1.getD "") ++ style.colon ++ render style member.2

theorem render_list (style : Style) (items : List Value) :
    render style (.list items) = enclose style '[' ']' (items.map (render style.deeper)) := by
  have each : ∀ items, renderItems style.deeper items = items.map (render style.deeper) := by
    intro items
    induction items with
    | nil => rw [renderItems, List.map_nil]
    | cons item items ih => rw [renderItems, List.map_cons, ih]
  rw [render, each]

theorem render_object (style : Style) (members : List (Option String × Value)) :
    render style (.object members) =
      enclose style '\x7b' '\x7d' (members.map (renderMember style.deeper)) := by
  have each : ∀ members, renderMembers style.deeper members = members.map (renderMember style.deeper) := by
    intro members
    induction members with
    | nil => rw [renderMembers, List.map_nil]
    | cons member members ih =>
      rw [renderMembers, List.map_cons, ih]
      rfl
  rw [render, each]

variable (style : Style) (start close : Char)

theorem length_lt_enclose {elements : List (List Char)} {element : List Char} (listed : element ∈ elements) :
    element.length < (enclose style start close elements).length := by
  cases elements with
  | nil => cases listed
  | cons first others =>
    rcases List.mem_cons.mp listed with rfl | later
    · simp only [enclose, List.length_cons, List.length_append]
      omega
    · obtain ⟨before, behind, rfl⟩ := List.append_of_mem later
      simp only [enclose, List.flatMap_append, List.flatMap_cons, List.length_cons, List.length_append]
      omega

theorem length_le_enclose (elements : List (List Char)) :
    elements.length ≤ (enclose style start close elements).length := by
  cases elements with
  | nil => exact Nat.zero_le _
  | cons first others =>
    have commas : others.length ≤
        (others.flatMap fun element => ',' :: (style.deeper.newline ++ element)).length := by
      induction others with
      | nil => exact Nat.zero_le _
      | cons element others ih =>
        rw [List.flatMap_cons, List.length_append, List.length_cons, List.length_cons]
        omega
    simp only [enclose, List.length_cons, List.length_append]
    omega

theorem length_item_lt {items : List Value} {item : Value} (listed : item ∈ items) :
    (render style.deeper item).length < (render style (.list items)).length := by
  rw [render_list]
  exact length_lt_enclose style '[' ']' (List.mem_map_of_mem (f := render style.deeper) listed)

theorem length_value_lt {members : List (String × Value)} {pair : String × Value}
    (listed : pair ∈ members) :
    (render style.deeper pair.2).length < (render style (.record members)).length := by
  have shorter := length_lt_enclose style '\x7b' '\x7d' (List.mem_map_of_mem
    (f := renderMember style.deeper) (List.mem_map_of_mem (f := Prod.map some id) listed))
  rw [renderMember, List.length_append] at shorter
  rw [Value.record_eq, render_object]
  exact (Nat.le_add_left _ _).trans_lt shorter

end Printer

namespace Reader

open Printer (Style enclose render renderMember)

def Blank (gap : List Char) : Prop := ∀ c ∈ gap, isBlank c = true

theorem blank_newline (style : Style) : Blank style.newline := by
  cases style with
  | compact => nofun
  | indented depth =>
    intro c listed
    rcases List.mem_cons.mp listed with rfl | deeper
    · rfl
    · rw [List.eq_of_mem_replicate deeper]
      rfl

theorem Blank.skip {gap : List Char} (blank : Blank gap) (text : List Char) :
    skipBlank (gap ++ text) = skipBlank text :=
  List.dropWhile_append_of_pos blank

theorem skipBlank_cons {c : Char} (seen : isBlank c = false) (text : List Char) :
    skipBlank (c :: text) = c :: text := by
  rw [skipBlank, List.dropWhile_cons_of_neg (by rw [seen]; exact Bool.false_ne_true)]

def Opens (close : Char) (text : List Char) : Prop :=
  ∃ c rest, text = c :: rest ∧ isBlank c = false ∧ c ≠ close

def Skips {α : Type} (element : List Char → Option (α × List Char)) : Prop :=
  ∀ gap, Blank gap → ∀ text, element (gap ++ text) = element text

structure Finds {α : Type} (element : List Char → Option (α × List Char)) (close : Char)
    (text : List Char) (a : α) : Prop where
  opens : Opens close text
  reads : ∀ rest, Stops rest → element (text ++ rest) = some (a, rest)

section
variable {α : Type} {element : List Char → Option (α × List Char)} {print : α → List Char} {close : Char}

theorem Skips.separated (skips : Skips element) {limit : Nat} :
    Skips (separated close element limit) := by
  intro gap blank text
  cases limit with
  | zero => rfl
  | succ limit => rw [Reader.separated, Reader.separated, skips gap blank]

variable (skips : Skips element) (closes : close = ']' ∨ close = '\x7d') {limit : Nat} (style : Style)
include closes

theorem stops_close (rest : List Char) : Stops (style.newline ++ close :: rest) := by
  cases style with
  | compact => obtain rfl | rfl := closes <;> exact stops_cons rfl rest
  | indented depth => exact stops_cons rfl _

theorem separated_last {text rest : List Char} {a : α} {gap : List Char} (blank : Blank gap)
    (read : element text = some (a, gap ++ close :: rest)) :
    separated close element (limit + 1) text = some ([a], rest) := by
  rw [separated, read, Option.bind_eq_bind, Option.bind_some]
  simp only [blank.skip]
  obtain rfl | rfl := closes <;> rfl

omit closes in
theorem separated_more {text rest : List Char} {a : α} (read : element text = some (a, ',' :: rest)) :
    separated close element (limit + 1) text =
      (separated close element limit rest).map fun (others, rest) => (a :: others, rest) := by
  rw [separated, read, Option.bind_eq_bind, Option.bind_some]
  show (separated close element limit rest >>= _) = _
  cases separated close element limit rest <;> rfl

include skips

theorem separated_printed {first : α} {others : List α}
    (finds : ∀ a ∈ first :: others, Finds element close (print a) a) (few : others.length < limit)
    (rest : List Char) :
    separated close element limit (print first ++ (((others.map print).flatMap fun text =>
      ',' :: (style.deeper.newline ++ text)) ++ (style.newline ++ close :: rest))) =
        some (first :: others, rest) := by
  have read := (finds first List.mem_cons_self).reads
  obtain ⟨limit, rfl⟩ := Nat.exists_eq_succ_of_ne_zero (Nat.ne_zero_of_lt few)
  -- On the elements behind the first: the reader is always at the start of one, with the comma behind it.
  induction others generalizing first limit with
  | nil => exact separated_last closes (blank_newline style) (read _ (stops_close closes style rest))
  | cons next others ih =>
    rw [List.length_cons] at few
    obtain ⟨limit, rfl⟩ := Nat.exists_eq_succ_of_ne_zero (n := limit) (by omega)
    have found : ∀ a ∈ next :: others, Finds element close (print a) a := fun a listed =>
      finds a (List.mem_cons_of_mem _ listed)
    rw [List.map_cons, List.flatMap_cons, List.cons_append, List.cons_append, List.append_assoc,
      List.append_assoc, separated_more (read _ (stops_cons rfl _)),
      skips.separated _ (blank_newline style.deeper),
      ih found (found next List.mem_cons_self).reads limit (by omega)]
    rfl

theorem group_enclosed (start : Char) {items : List α}
    (finds : ∀ a ∈ items, Finds element close (print a) a) (few : items.length ≤ limit) :
    ∃ body, enclose style start close (items.map print) = start :: body ∧
      ∀ rest, group close element limit (body ++ rest) = some (items, rest) := by
  cases items with
  | nil =>
    refine ⟨[close], rfl, fun rest => ?_⟩
    obtain rfl | rfl := closes <;> rfl
  | cons first others =>
    refine ⟨_, rfl, fun rest => ?_⟩
    have read := separated_printed skips closes style finds few rest
    obtain ⟨c, tail, opened, seen, apart⟩ := (finds first List.mem_cons_self).opens
    rw [opened, List.cons_append] at read
    simp only [List.append_assoc, List.cons_append, List.nil_append]
    rw [group, (blank_newline style.deeper).skip, opened, List.cons_append, skipBlank_cons seen]
    simp only [if_neg apart]
    exact read

end

theorem skips_value (limit depth : Nat) : Skips (value limit depth) := by
  intro gap blank text
  cases depth with
  | zero => rfl
  | succ depth => rw [value, value, blank.skip]

theorem skips_member (found : List Char → Option (Value × List Char)) : Skips (member found) := by
  intro gap blank text
  rw [member, member, blank.skip]

theorem blank_behind_colon (style : Style) : ∃ gap, Blank gap ∧ style.colon = ':' :: gap := by
  cases style with
  | compact => exact ⟨[], nofun, rfl⟩
  | indented depth =>
    refine ⟨[' '], fun c listed => ?_, rfl⟩
    rw [List.mem_singleton.mp listed]
    rfl

theorem finds_member {limit depth : Nat} (style : Style) (name : String) {v : Value}
    (finds : Finds (value limit depth) ']' (render style v) v) :
    Finds (member (value limit depth)) '\x7d' (renderMember style (some name, v)) (some name, v) := by
  obtain ⟨gap, blank, colon⟩ := blank_behind_colon style
  constructor
  · exact ⟨'"', _, rfl, rfl, by decide⟩
  · intro rest stops
    have read := finds.reads rest stops
    rw [renderMember, Option.getD_some, colon, List.append_assoc, List.append_assoc, quote_append, member,
      skipBlank_cons rfl]
    simp only [string_quoted, Option.bind_eq_bind, Option.bind_some, List.cons_append,
      skipBlank_cons (c := ':') rfl, skips_value limit depth gap blank, read]
    rfl

section
variable (style : Style) {limit depth : Nat}

theorem finds_list {items : List Value} (few : (render style (.list items)).length ≤ limit)
    (finds : ∀ item ∈ items, Finds (value limit depth) ']' (render style.deeper item) item) :
    Finds (value limit (depth + 1)) ']' (render style (.list items)) (.list items) := by
  have count := Printer.length_le_enclose style '[' ']' (items.map (render style.deeper))
  rw [List.length_map] at count
  rw [Printer.render_list] at few ⊢
  obtain ⟨body, printed, read⟩ :=
    group_enclosed (skips_value limit depth) (.inl rfl) style '[' finds (count.trans few)
  rw [printed]
  refine ⟨⟨'[', body, rfl, rfl, by decide⟩, fun rest _ => ?_⟩
  rw [List.cons_append, value, skipBlank_cons rfl]
  simp only [read, Option.map_some]

theorem finds_record {members : List (String × Value)}
    (few : (render style (.record members)).length ≤ limit)
    (finds : ∀ pair ∈ members, Finds (value limit depth) ']' (render style.deeper pair.2) pair.2) :
    Finds (value limit (depth + 1)) ']' (render style (.record members)) (.record members) := by
  rw [Value.record_eq, Printer.render_object] at few ⊢
  have each : ∀ field ∈ members.map (Prod.map some id),
      Finds (member (value limit depth)) '\x7d' (renderMember style.deeper field) field := by
    intro field listed
    obtain ⟨⟨name, v⟩, known, rfl⟩ := List.mem_map.mp listed
    exact finds_member style.deeper name (finds _ known)
  have count := Printer.length_le_enclose style '\x7b' '\x7d'
    ((members.map (Prod.map some id)).map (renderMember style.deeper))
  rw [List.length_map] at count
  obtain ⟨body, printed, read⟩ :=
    group_enclosed (skips_member _) (.inr rfl) style '\x7b' each (count.trans few)
  rw [printed]
  refine ⟨⟨'\x7b', body, rfl, rfl, by decide⟩, fun rest _ => ?_⟩
  rw [List.cons_append, value, skipBlank_cons rfl]
  simp only [read, Option.map_some]

end

theorem finds_plain {v : Value} (plain : v.Plain) (style : Style) {limit depth : Nat}
    (fits : (render style v).length ≤ limit) (deep : (render style v).length ≤ depth) :
    Finds (value limit (depth + 1)) ']' (render style v) v := by
  -- What stands in brackets is printed one level deeper and is shorter, so both bounds reach it.
  induction plain generalizing style depth with
  | null => exact ⟨⟨'n', _, rfl, rfl, by decide⟩, fun _ _ => rfl⟩
  | bool b =>
    cases b with
    | false => exact ⟨⟨'f', _, rfl, rfl, by decide⟩, fun _ _ => rfl⟩
    | true => exact ⟨⟨'t', _, rfl, rfl, by decide⟩, fun _ _ => rfl⟩
  | natural n =>
    obtain ⟨c, tail, printed, _⟩ := Printer.head_decimal n
    have figure := Printer.mem_figures_of_mem_decimal n c (printed ▸ List.mem_cons_self)
    have seen : Printer.figures.all (fun c => !isBlank c && c != ']') = true := by decide
    have seen := List.all_eq_true.mp seen c figure
    simp only [Bool.and_eq_true, Bool.not_eq_true', bne_iff_ne] at seen
    rw [Value.natural, Printer.render]
    exact ⟨⟨c, tail, printed, seen⟩, fun rest stops => value_decimal stops limit depth n⟩
  | string text =>
    refine ⟨⟨'"', _, rfl, rfl, by decide⟩, fun rest _ => ?_⟩
    rw [Value.string, Printer.render, quote_append, value, skipBlank_cons rfl]
    simp only [string_quoted, Option.map_some]
  | list each ih =>
    refine finds_list style fits fun item listed => ?_
    have shorter := Printer.length_item_lt style listed
    obtain ⟨depth, rfl⟩ := Nat.exists_eq_succ_of_ne_zero (Nat.ne_zero_of_lt (shorter.trans_le deep))
    exact ih item listed style.deeper (by omega) (by omega)
  | record each ih =>
    refine finds_record style fits fun pair listed => ?_
    have shorter := Printer.length_value_lt style listed
    obtain ⟨depth, rfl⟩ := Nat.exists_eq_succ_of_ne_zero (Nat.ne_zero_of_lt (shorter.trans_le deep))
    exact ih pair listed style.deeper (by omega) (by omega)

end Reader

theorem Value.Plain.ofText_render {v : Value} (plain : v.Plain) (style : Printer.Style) :
    ofText (String.ofList (Printer.render style v)) = some v := by
  have found := (Reader.finds_plain plain style (Nat.le_refl _) (Nat.le_refl _)).reads [] Reader.stops_nil
  rw [List.append_nil] at found
  rw [ofText, String.toList_ofList, found]
  rfl

end Reassembly.Json
