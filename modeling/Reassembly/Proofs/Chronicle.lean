import Mathlib.Data.List.Induction
import Reassembly.Proofs.Drains

/-!
The law of what a reader is told of a flow. Bytes come only while the flow is started; on each side they
go on where the last ones ended, or behind one gap that says so. What a reader knows of a flow after some
events determines which event may come next, so the law follows from one step at a time. The same step as
a function says what is known, for events that may be empty of bytes too.
-/

namespace Reassembly.Delivery

deriving instance DecidableEq for Event

namespace Event

/-- The event tells of bytes, or that there are none. -/
def IsOfStream : Event → Prop
  | .data _ _ _ _ | .gap _ _ _ _ => True
  | .started _ _ | .expired _ => False

def gapFor (flow : FlowId) (side : Side) : Event → Option (Seq × Seq)
  | .gap other part expected resumedAt =>
    if other = flow ∧ part = side then some (expected, resumedAt) else none
  | _ => none

theorem gapFor_self (flow : FlowId) (side : Side) (expected resumedAt : Seq) :
    (gap flow side expected resumedAt).gapFor flow side = some (expected, resumedAt) := if_pos ⟨rfl, rfl⟩

end Event

/-- The law of what is told of a flow. -/
structure Lawful (flow : FlowId) (events : List Event) : Prop where
  begun : ∀ front event back, events = front ++ event :: back → event.flow = flow → event.IsOfStream →
    ∃ early initialSeq late, front = early ++ .started flow initialSeq :: late ∧ .expired flow ∉ late
  filled : ∀ side start bytes, .data flow side start bytes ∈ events → 0 < bytes.size
  onward : ∀ front side start bytes middle next others back,
    events = front ++ .data flow side start bytes :: (middle ++ .data flow side next others :: back) →
    (∀ initialSeq, .started flow initialSeq ∉ middle) →
    (∀ start bytes, .data flow side start bytes ∉ middle) →
    middle.filterMap (Event.gapFor flow side) = [] ∧ next = start.advance bytes.size ∨
    middle.filterMap (Event.gapFor flow side) = [(start.advance bytes.size, next)] ∧
      0 < Seq.distance (start.advance bytes.size) next ∧
      Seq.distance (start.advance bytes.size) next < Seq.halfTurn

/-- The bytes just before a position were told last of a side, and the flow did not start again since. -/
def ReadUpTo (flow : FlowId) (side : Side) (events : List Event) (next : Seq) : Prop :=
  ∃ early start bytes late, events = early ++ .data flow side start bytes :: late ∧
    next = start.advance bytes.size ∧ (∀ initialSeq, .started flow initialSeq ∉ late) ∧
    ∀ start bytes, .data flow side start bytes ∉ late

/-- How far one side was told: not at all, up to a byte that comes next, or up to a gap and then to
the byte behind it. -/
inductive Mark where
  | unread
  | due (next : Seq)
  | skipped (next : Seq)

namespace Mark

def Admits : Mark → Seq → Prop
  | unread, _ => True
  | due next, start | skipped next, start => start = next

def upTo : Option Seq → Mark
  | none => unread
  | some next => due next

end Mark

/-- What a reader knows of a flow before and after one more event: how far the sides were told, if it
is started. -/
inductive Follows (flow : FlowId) : Option (PerSide Mark) → Event → Option (PerSide Mark) → Prop
  | other {known : Option (PerSide Mark)} {event : Event} (apart : event.flow ≠ flow) :
      Follows flow known event known
  | started {known : Option (PerSide Mark)} (initialSeq : Seq) :
      Follows flow known (.started flow initialSeq) (some (.both .unread))
  | data {marks : PerSide Mark} {side : Side} {start : Seq} {bytes : ByteArray}
      (admits : (marks.get side).Admits start) (filled : 0 < bytes.size) :
      Follows flow (some marks) (.data flow side start bytes)
        (some (marks.set (.due (start.advance bytes.size)) side))
  | gap {marks : PerSide Mark} {side : Side} {expected resumedAt : Seq}
      (due : marks.get side = .due expected) (ahead : 0 < Seq.distance expected resumedAt)
      (near : Seq.distance expected resumedAt < Seq.halfTurn) :
      Follows flow (some marks) (.gap flow side expected resumedAt)
        (some (marks.set (.skipped resumedAt) side))
  | expired {marks : PerSide Mark} : Follows flow (some marks) (.expired flow) none

inductive Chronicle (flow : FlowId) :
    Option (PerSide Mark) → List Event → Option (PerSide Mark) → Prop
  | nil (known : Option (PerSide Mark)) : Chronicle flow known [] known
  | cons {known between after : Option (PerSide Mark)} {event : Event} {rest : List Event}
      (first : Follows flow known event between) (others : Chronicle flow between rest after) :
      Chronicle flow known (event :: rest) after

variable {flow : FlowId} {known after : Option (PerSide Mark)} {marks : PerSide Mark}
  {events first second : List Event} {side : Side}

namespace Chronicle

theorem single {event : Event} (follows : Follows flow known event after) :
    Chronicle flow known [event] after := .cons follows (.nil _)

theorem append_iff : Chronicle flow known (first ++ second) after ↔
    ∃ between, Chronicle flow known first between ∧ Chronicle flow between second after := by
  induction first generalizing known with
  | nil =>
    refine ⟨fun all => ⟨known, .nil _, all⟩, ?_⟩
    rintro ⟨_, ⟨⟩, rest⟩
    exact rest
  | cons event rest ih =>
    constructor
    · rintro (_ | ⟨follows, others⟩)
      obtain ⟨between, early, late⟩ := ih.mp others
      exact ⟨between, .cons follows early, late⟩
    · rintro ⟨between, _ | ⟨follows, early⟩, late⟩
      exact .cons follows (ih.mpr ⟨between, early, late⟩)

theorem append {between : Option (PerSide Mark)} (early : Chronicle flow known first between)
    (late : Chronicle flow between second after) : Chronicle flow known (first ++ second) after :=
  append_iff.mpr ⟨between, early, late⟩

theorem cons_iff {event : Event} : Chronicle flow known (event :: events) after ↔
    ∃ between, Follows flow known event between ∧ Chronicle flow between events after := by
  constructor
  · rintro (_ | ⟨follows, others⟩)
    exact ⟨_, follows, others⟩
  · rintro ⟨between, follows, others⟩
    exact .cons follows others

theorem skip (others : ∀ event ∈ events, event.flow ≠ flow) : Chronicle flow known events known := by
  induction events with
  | nil => exact .nil _
  | cons event rest ih =>
    exact .cons (.other (others event List.mem_cons_self))
      (ih fun event later => others event (List.mem_cons_of_mem _ later))

theorem of_filter (told : Chronicle flow known (events.filter (·.flow = flow)) after) :
    Chronicle flow known events after := by
  induction events generalizing known with
  | nil => exact told
  | cons event rest ih =>
    by_cases same : event.flow = flow
    · rw [List.filter_cons_of_pos (by simpa using same)] at told
      obtain ⟨between, follows, others⟩ := cons_iff.mp told
      exact .cons follows (ih others)
    · rw [List.filter_cons_of_neg (by simpa using same)] at told
      exact .cons (.other same) (ih told)

theorem exists_started (told : Chronicle flow none events (some marks)) :
    ∃ early initialSeq late, events = early ++ .started flow initialSeq :: late ∧
      .expired flow ∉ late := by
  induction events using List.reverseRecOn generalizing marks with
  | nil => cases told
  | append_singleton front event ih =>
    obtain ⟨between, told, last⟩ := append_iff.mp told
    obtain ⟨_, follows, ⟨⟩⟩ := cons_iff.mp last
    have onward {before : PerSide Mark} (same : between = some before) (stays : event ≠ .expired flow) :
        ∃ early initialSeq late, front ++ [event] = early ++ .started flow initialSeq :: late ∧
          .expired flow ∉ late := by
      subst same
      obtain ⟨early, initialSeq, late, rfl, lasting⟩ := ih told
      refine ⟨early, initialSeq, late ++ [event], by rw [List.append_assoc, List.cons_append], ?_⟩
      rw [List.mem_append, List.mem_singleton]
      exact fun listed => listed.elim lasting fun same => stays same.symm
    cases follows with
    | other apart => exact onward rfl fun same => apart (same ▸ rfl)
    | started initialSeq => exact ⟨front, initialSeq, [], rfl, List.not_mem_nil⟩
    | data _ _ => exact onward rfl nofun
    | gap _ _ _ => exact onward rfl nofun

theorem isSome_of_started {initialSeq : Seq} (told : Chronicle flow known (.started flow initialSeq :: events) after)
    (lasting : .expired flow ∉ events) : after.isSome := by
  induction events using List.reverseRecOn generalizing after with
  | nil =>
    obtain ⟨_, follows, ⟨⟩⟩ := cons_iff.mp told
    cases follows with
    | other apart => exact absurd rfl apart
    | started _ => rfl
  | append_singleton front event ih =>
    rw [← List.cons_append] at told
    obtain ⟨between, told, last⟩ := append_iff.mp told
    obtain ⟨_, follows, ⟨⟩⟩ := cons_iff.mp last
    cases follows with
    | other _ => exact ih told fun listed => lasting (List.mem_append_left _ listed)
    | expired => exact absurd (List.mem_append_right _ (List.mem_singleton_self _)) lasting
    | started _ | data _ _ | gap _ _ _ => rfl

/-- Where a byte comes next on a side, the one before it was told last, and the flow did not start
again since. -/
theorem readUpTo {next : Seq} (told : Chronicle flow none events (some marks))
    (due : marks.get side = .due next) : ReadUpTo flow side events next := by
  induction events using List.reverseRecOn generalizing marks with
  | nil => cases told
  | append_singleton front event ih =>
    obtain ⟨between, told, last⟩ := append_iff.mp told
    obtain ⟨_, follows, ⟨⟩⟩ := cons_iff.mp last
    have onward {before : PerSide Mark} (same : between = some before) (still : before.get side = .due next)
        (restarts : ∀ initialSeq, event ≠ .started flow initialSeq)
        (tells : ∀ start bytes, event ≠ .data flow side start bytes) :
        ReadUpTo flow side (front ++ [event]) next := by
      subst same
      obtain ⟨early, start, bytes, late, rfl, here, once, lasting⟩ := ih told still
      refine ⟨early, start, bytes, late ++ [event], by rw [List.append_assoc, List.cons_append], here, ?_, ?_⟩
      · intro initialSeq listed
        rcases List.mem_append.mp listed with early | last
        · exact once initialSeq early
        · exact restarts initialSeq (List.mem_singleton.mp last).symm
      · intro start bytes listed
        rcases List.mem_append.mp listed with early | last
        · exact lasting start bytes early
        · exact tells start bytes (List.mem_singleton.mp last).symm
    cases follows with
    | other apart => exact onward rfl due (fun _ same => apart (same ▸ rfl)) fun _ _ same => apart (same ▸ rfl)
    | started initialSeq =>
      rw [PerSide.get_both] at due
      cases due
    | @data before part start bytes admits filled =>
      by_cases same : side = part
      · subst same
        rw [PerSide.get_set_self] at due
        exact ⟨front, start, bytes, [], rfl, (Mark.due.inj due).symm, fun _ => List.not_mem_nil,
          fun _ _ => List.not_mem_nil⟩
      · rw [PerSide.get_set_of_ne _ _ same] at due
        refine onward rfl due nofun fun _ _ other => same ?_
        injection other with _ other
        exact other.symm
    | @gap before part expected resumedAt _ _ _ =>
      by_cases same : side = part
      · subst same
        rw [PerSide.get_set_self] at due
        cases due
      · rw [PerSide.get_set_of_ne _ _ same] at due
        exact onward rfl due nofun nofun

theorem gaps_between {stop : Seq} (told : Chronicle flow known events after)
    (once : ∀ initialSeq, .started flow initialSeq ∉ events)
    (silent : ∀ start bytes, .data flow side start bytes ∉ events)
    (begun : known = none ∨ ∃ marks, known = some marks ∧ marks.get side = .due stop) :
    after = none ∨ ∃ marks, after = some marks ∧
      (marks.get side = .due stop ∧ events.filterMap (Event.gapFor flow side) = [] ∨
        ∃ next, marks.get side = .skipped next ∧
          events.filterMap (Event.gapFor flow side) = [(stop, next)] ∧
          0 < Seq.distance stop next ∧ Seq.distance stop next < Seq.halfTurn) := by
  induction events using List.reverseRecOn generalizing after with
  | nil =>
    cases told
    refine begun.imp id ?_
    rintro ⟨marks, rfl, due⟩
    exact ⟨marks, rfl, .inl ⟨due, rfl⟩⟩
  | append_singleton front event ih =>
    obtain ⟨between, told, final⟩ := append_iff.mp told
    obtain ⟨_, follows, ⟨⟩⟩ := cons_iff.mp final
    have before := ih told (fun initialSeq listed => once initialSeq (List.mem_append_left _ listed))
      fun start bytes listed => silent start bytes (List.mem_append_left _ listed)
    have last : event ∈ front ++ [event] := List.mem_append_right _ (List.mem_singleton_self _)
    rw [List.filterMap_append]
    have quiet (none : event.gapFor flow side = none) :
        front.filterMap (Event.gapFor flow side) ++ [event].filterMap (Event.gapFor flow side) =
          front.filterMap (Event.gapFor flow side) := by
      rw [List.filterMap_cons_none none, List.filterMap_nil, List.append_nil]
    cases follows with
    | other apart =>
      rw [quiet]
      · exact before
      · cases event with
        | gap other part expected resumedAt => exact if_neg fun same => apart same.1
        | _ => rfl
    | started initialSeq => exact absurd last (once initialSeq)
    | expired => exact .inl rfl
    | @data marks part start bytes admits filled =>
      have elsewhere : side ≠ part := fun same => silent start bytes (same ▸ last)
      rw [quiet rfl]
      rcases before with missing | ⟨marks', same, state⟩
      · cases missing
      · obtain rfl := Option.some.inj same
        exact .inr ⟨_, rfl, by rw [PerSide.get_set_of_ne _ _ elsewhere]; exact state⟩
    | @gap marks part expected resumedAt due ahead near =>
      rcases before with missing | ⟨marks', same, state⟩
      · cases missing
      obtain rfl := Option.some.inj same
      by_cases here : side = part
      · subst here
        rcases state with ⟨still, none⟩ | ⟨next, skipped, _⟩
        · obtain rfl := Mark.due.inj (due.symm.trans still)
          refine .inr ⟨_, rfl, .inr ⟨resumedAt, PerSide.get_set_self _ _ _, ?_, ahead, near⟩⟩
          rw [none, List.nil_append, List.filterMap_cons_some (Event.gapFor_self ..), List.filterMap_nil]
        · rw [due] at skipped
          cases skipped
      · rw [quiet (if_neg fun same => here same.2.symm)]
        exact .inr ⟨_, rfl, by rw [PerSide.get_set_of_ne _ _ here]; exact state⟩

theorem lawful (told : Chronicle flow none events after) : Lawful flow events where
  begun := by
    rintro front event back rfl mine ofStream
    obtain ⟨between, early, late⟩ := append_iff.mp told
    obtain ⟨_, follows, _⟩ := cons_iff.mp late
    cases follows with
    | other apart => exact absurd mine apart
    | started _ => exact ofStream.elim
    | data _ _ => exact early.exists_started
    | gap _ _ _ => exact early.exists_started
    | expired => exact ofStream.elim
  filled := by
    intro side start bytes listed
    obtain ⟨front, back, rfl⟩ := List.append_of_mem listed
    obtain ⟨between, _, late⟩ := append_iff.mp told
    obtain ⟨_, follows, _⟩ := cons_iff.mp late
    cases follows with
    | other apart => exact absurd rfl apart
    | data _ filled => exact filled
  onward := by
    rintro front side start bytes middle next others back rfl once silent
    obtain ⟨_, _, late⟩ := append_iff.mp told
    obtain ⟨_, follows, late⟩ := cons_iff.mp late
    obtain ⟨_, within, late⟩ := append_iff.mp late
    obtain ⟨_, last, _⟩ := cons_iff.mp late
    cases follows with
    | other apart => exact absurd rfl apart
    | data _ _ =>
      have state := within.gaps_between once silent (.inr ⟨_, rfl, PerSide.get_set_self _ _ _⟩)
      cases last with
      | other apart => exact absurd rfl apart
      | data admits _ =>
        rcases state with missing | ⟨marks, same, state⟩
        · cases missing
        obtain rfl := Option.some.inj same
        rcases state with ⟨due, none⟩ | ⟨resumedAt, skipped, one, ahead, near⟩
        · rw [due] at admits
          exact .inl ⟨none, admits⟩
        · rw [skipped] at admits
          obtain rfl : next = resumedAt := admits
          exact .inr ⟨one, ahead, near⟩

end Chronicle

/-! ### What a reader knows, as a function of the events -/

namespace Mark

deriving instance DecidableEq for Mark

instance : (mark : Mark) → (start : Seq) → Decidable (mark.Admits start)
  | unread, _ => inferInstanceAs (Decidable True)
  | due next, start | skipped next, start => inferInstanceAs (Decidable (start = next))

/-- A number is too far, either way, from the byte that comes next. -/
def IsFar (initialSeq : Seq) : Mark → Prop
  | due next => continuationWindow < Seq.distance initialSeq next ∧
      continuationWindow < Seq.distance next initialSeq
  | unread | skipped _ => False

instance (initialSeq : Seq) : (mark : Mark) → Decidable (mark.IsFar initialSeq)
  | due _ => inferInstanceAs (Decidable (_ ∧ _))
  | unread | skipped _ => inferInstanceAs (Decidable False)

end Mark

/-- What is known of a flow after one more event; nothing if the event cannot come next. A flow that is
known starts anew only far from what was read of it. -/
def Event.next? (flow : FlowId) (known : Option (PerSide Mark)) (event : Event) :
    Option (Option (PerSide Mark)) :=
  if event.flow = flow then
    match event, known with
    | .started _ _, none => some (some (.both .unread))
    | .started _ initialSeq, some marks =>
      if marks.source.IsFar initialSeq ∨ marks.destination.IsFar initialSeq then
        some (some (.both .unread))
      else none
    | .data _ side start bytes, some marks =>
      if (marks.get side).Admits start then
        some (some (marks.set (.due (start.advance bytes.size)) side))
      else none
    | .gap _ side expected resumedAt, some marks =>
      if marks.get side = .due expected ∧ 0 < Seq.distance expected resumedAt ∧
          Seq.distance expected resumedAt < Seq.halfTurn then
        some (some (marks.set (.skipped resumedAt) side))
      else none
    | .expired _, some _ => some none
    | _, none => none
  else some known

/-- What is known of a flow after some events, if each of them could come next. -/
def knownAfter? (flow : FlowId) (known : Option (PerSide Mark)) (events : List Event) :
    Option (Option (PerSide Mark)) :=
  events.foldlM (Event.next? flow) known

theorem knownAfter?_append {between : Option (PerSide Mark)} (early : knownAfter? flow known first = some between)
    (second : List Event) : knownAfter? flow known (first ++ second) = knownAfter? flow between second := by
  unfold knownAfter? at early ⊢
  rw [List.foldlM_append, early]
  rfl

theorem knownAfter?_single (event : Event) :
    knownAfter? flow known [event] = event.next? flow known := by
  unfold knownAfter?
  rw [List.foldlM_cons]
  cases event.next? flow known with
  | none => rfl
  | some after => rfl

theorem knownAfter?_others (others : ∀ event ∈ events, event.flow ≠ flow) :
    knownAfter? flow known events = some known := by
  induction events with
  | nil => rfl
  | cons event rest ih =>
    have first : knownAfter? flow known [event] = some known := by
      rw [knownAfter?_single]
      exact if_neg (others event List.mem_cons_self)
    rw [← List.singleton_append, knownAfter?_append first]
    exact ih fun later listed => others later (List.mem_cons_of_mem _ listed)

theorem knownAfter?_data {start : Seq} (bytes : ByteArray) (admits : (marks.get side).Admits start) :
    knownAfter? flow (some marks) [.data flow side start bytes] =
      some (some (marks.set (.due (start.advance bytes.size)) side)) := by
  rw [knownAfter?_single, Event.next?]
  refine (if_pos rfl).trans ?_
  exact if_pos admits

theorem knownAfter?_gap {expected resumedAt : Seq} (due : marks.get side = .due expected)
    (ahead : 0 < Seq.distance expected resumedAt) (near : Seq.distance expected resumedAt < Seq.halfTurn) :
    knownAfter? flow (some marks) [.gap flow side expected resumedAt] =
      some (some (marks.set (.skipped resumedAt) side)) := by
  rw [knownAfter?_single, Event.next?]
  refine (if_pos rfl).trans ?_
  exact if_pos ⟨due, ahead, near⟩

theorem knownAfter?_expired {flows : List FlowId} (distinct : flows.Nodup) (listed : flow ∈ flows)
    (marks : PerSide Mark) :
    knownAfter? flow (some marks) (flows.map Event.expired) = some none := by
  obtain ⟨front, back, rfl⟩ := List.append_of_mem listed
  obtain ⟨_, others, apart⟩ := List.nodup_append.mp distinct
  have early : knownAfter? flow (some marks) (front.map Event.expired) = some (some marks) := by
    apply knownAfter?_others
    intro event told
    obtain ⟨other, before, rfl⟩ := List.mem_map.mp told
    exact apart other before flow List.mem_cons_self
  have here : knownAfter? flow (some marks) [.expired flow] = some none := by
    rw [knownAfter?_single, Event.next?]
    exact if_pos rfl
  have late : knownAfter? flow none (back.map Event.expired) = some none := by
    apply knownAfter?_others
    intro event told
    obtain ⟨other, later, rfl⟩ := List.mem_map.mp told
    rintro rfl
    exact (List.nodup_cons.mp others).1 later
  rw [List.map_append, knownAfter?_append early, List.map_cons, ← List.singleton_append,
    knownAfter?_append here]
  exact late

theorem Follows.of_next? {event : Event}
    (filled : ∀ side start bytes, event = .data flow side start bytes → 0 < bytes.size)
    (next : event.next? flow known = some after) : Follows flow known event after := by
  unfold Event.next? at next
  by_cases mine : event.flow = flow
  · rw [if_pos mine] at next
    subst mine
    cases event with
    | started flow initialSeq =>
      have begins : after = some (.both .unread) := by
        cases known with
        | none => exact (Option.some.inj next).symm
        | some marks => exact (Option.some.inj (Option.ite_none_right_eq_some.mp next).2).symm
      rw [begins]
      exact .started initialSeq
    | data flow side start bytes =>
      cases known with
      | none => cases next
      | some marks =>
        obtain ⟨admits, same⟩ := Option.ite_none_right_eq_some.mp next
        obtain rfl := Option.some.inj same
        exact .data admits (filled side start bytes rfl)
    | gap flow side expected resumedAt =>
      cases known with
      | none => cases next
      | some marks =>
        obtain ⟨⟨due, ahead, near⟩, same⟩ := Option.ite_none_right_eq_some.mp next
        obtain rfl := Option.some.inj same
        exact .gap due ahead near
    | expired flow =>
      cases known with
      | none => cases next
      | some marks =>
        obtain rfl := Option.some.inj next
        exact .expired
  · rw [if_neg mine] at next
    obtain rfl := Option.some.inj next
    exact .other mine

theorem Chronicle.of_knownAfter?
    (filled : ∀ side start bytes, .data flow side start bytes ∈ events → 0 < bytes.size)
    (told : knownAfter? flow known events = some after) : Chronicle flow known events after := by
  induction events generalizing known with
  | nil =>
    obtain rfl := Option.some.inj told
    exact .nil _
  | cons event rest ih =>
    unfold knownAfter? at told
    rw [List.foldlM_cons] at told
    obtain ⟨between, first, others⟩ := Option.bind_eq_some_iff.mp told
    have follows : Follows flow known event between := by
      apply Follows.of_next? _ first
      rintro side start bytes rfl
      exact filled side start bytes List.mem_cons_self
    have later : Chronicle flow between rest after := by
      apply ih _ others
      intro side start bytes listed
      exact filled side start bytes (List.mem_cons_of_mem _ listed)
    exact .cons follows later

end Reassembly.Delivery
