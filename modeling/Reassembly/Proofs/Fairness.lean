import Reassembly.Proofs.Answers
import Reassembly.Proofs.Turns

/-!
The fairness of the rotation. A handle asks for the next marker again and again, while other handles put,
erase, close and read, and clocks go any way. Nothing but its own question moves its rotation, and a
question stops at the ready marker that is next in turn; so before it comes back to where it was, it has
stopped at every marker that was ready all the while.
-/

namespace Reassembly

open Store Reading

namespace Commons

abbrev Move.ask (index : Nat) (now : Micros) : Move := .operate index (.nextMarker now)

/-- When the handle at an index asks for its next marker, if that is what happens. -/
def Move.asked? (index : Nat) : Move → Option Micros
  | .operate other (.nextMarker now) => if other = index then some now else none
  | _ => none

/-- What there is whenever the handle at an index asks for its next marker, and when that is. -/
def questions (c : Commons) (index : Nat) : List Move → List (Commons × Micros)
  | [] => []
  | move :: rest => ((move.asked? index).map fun now => (c, now)).toList ++ (c.step move).questions index rest

def ready (c : Commons) (v : View) : List Item :=
  (Catalog.itemsIn v.layout c.bytes).filter (Item.isReadyMarker v)

variable {l : Layout} {c : Commons} {cat : Catalog} {index : Nat} {a : Attachment}

theorem Move.asked?_ask (index : Nat) (now : Micros) : (Move.ask index now).asked? index = some now :=
  if_pos rfl

theorem Move.eq_ask {move : Move} {now : Micros} (asked : move.asked? index = some now) :
    move = .ask index now := by
  rcases move with _ | ⟨other, operation⟩
  · cases asked
  · cases operation with
    | nextMarker time =>
      rw [asked?] at asked
      split at asked
      · next same => rw [same, Option.some.inj asked]
      · cases asked
    | _ => cases asked

def stand (a : Attachment) (cat : Catalog) : Option Micros → Option Ref
  | none => a.rotation
  | some now => (Item.turn (a.view now) (cat.rotated a.rotation) a.rotation).2

theorem ready_eq (carrying : Carrying l c cat) (attached : c.handles[index]? = some a) (now : Micros) :
    c.ready (a.view now) = cat.ready (a.view now) := by
  have seen := (carrying.seen (List.mem_of_getElem? attached)).itemsIn_eq
  rw [ready, Catalog.ready, ← seen]
  rfl

theorem told_ask (carrying : Carrying l c cat) (attached : c.handles[index]? = some a) (now : Micros) :
    c.told (.ask index now) =
      .block ((Item.turn (a.view now) (cat.rotated a.rotation) a.rotation).1.map (Item.stored (a.view now))) :=
  carrying.told_operate attached (.nextMarker now)

theorem Carrying.step_stand (carrying : Carrying l c cat) (attached : c.handles[index]? = some a) (move : Move) :
    ∃ cat' a', Carrying l (c.step move) cat' ∧ (c.step move).handles[index]? = some a' ∧
      a'.view = a.view ∧ a'.rotation = stand a cat (move.asked? index) := by
  have inside := (List.getElem?_eq_some_iff.mp attached).1
  rcases move with ⟨handle, config⟩ | ⟨other, operation⟩
  · refine ⟨cat, a, (carrying.attach handle config).2, ?_, rfl, rfl⟩
    simp only [Commons.step]
    split
    · rw [List.getElem?_append_left inside]
      exact attached
    · exact attached
  · cases there : c.handles[other]? with
    | none =>
      have apart : other ≠ index := fun same => by
        rw [same, attached] at there
        cases there
      have still : c.step (.operate other operation) = c := by simp only [Commons.step, there]
      refine ⟨cat, a, by rw [still]; exact carrying, by rw [still]; exact attached, rfl, ?_⟩
      cases operation with
      | nextMarker now => rw [Move.asked?, if_neg apart, stand]
      | _ => rfl
    | some b =>
      obtain ⟨bytes, stepped, after⟩ := carrying.operate there operation
      by_cases same : other = index
      · subst same
        obtain rfl := Option.some.inj (attached.symm.trans there)
        refine ⟨_, (operation.effect a cat).1, after, ?_, ?_, ?_⟩
        · rw [stepped, List.getElem?_set_self inside]
        · funext now
          rw [Attachment.view, operation.layout_effect, operation.config_effect, Attachment.view]
        · cases operation with
          | nextMarker now => rw [Move.asked?, if_pos rfl, stand, Operation.effect]
          | _ => rfl
      · refine ⟨_, a, after, ?_, rfl, ?_⟩
        · rw [stepped, List.getElem?_set_ne same]
          exact attached
        · cases operation with
          | nextMarker now => rw [Move.asked?, if_neg same, stand]
          | _ => rfl

theorem Carrying.asks (carrying : Carrying l c cat) (attached : c.handles[index]? = some a) {now : Micros}
    {start other stand : Ref} (stands : a.rotation = some stand) (passed : stand = start ∨
      Ref.ahead (some start) stand < Ref.ahead (some start) other)
    (due : ∃ item ∈ c.ready (a.view now), item.ref = other) :
    ∃ item : Item, c.told (.ask index now) = .block (some (item.stored (a.view now))) ∧
      Commons.stand a cat (some now) = some item.ref ∧
      (item.ref = other ∨ Ref.ahead (some start) item.ref < Ref.ahead (some start) other) := by
  have ordered := carrying.carries.ordered
  obtain ⟨wanted, listed, rfl⟩ := due
  rw [ready_eq carrying attached] at listed
  cases found : (Item.turn (a.view now) (cat.rotated a.rotation) a.rotation).1 with
  | none =>
    rw [ordered.turn_eq_none_iff] at found
    rw [found] at listed
    exact absurd listed List.not_mem_nil
  | some item =>
    have nearest := ordered.turn_nearest found listed
    rw [stands] at nearest
    have le := Ref.ahead_le_of_ahead passed nearest
    refine ⟨item, ?_, Item.turn_snd found, (Nat.lt_or_eq_of_le le).symm.imp_left Ref.ahead_injective⟩
    rw [told_ask carrying attached, found]
    rfl

/-- A handle that came from a marker, and did not go past another that is ready whenever it asks, is told
of that other one before it comes back. -/
theorem Carrying.passes (carrying : Carrying l c cat) (attached : c.handles[index]? = some a) {start other stand : Ref}
    (apart : other ≠ start) (stands : a.rotation = some stand) (passed : stand = start ∨
      Ref.ahead (some start) stand < Ref.ahead (some start) other) (moves : List Move) {last : Micros}
    (due : ∀ question ∈ c.questions index (moves ++ [.ask index last]),
      ∃ item ∈ question.1.ready (a.view question.2), item.ref = other) {marker : Stored}
    (ends : (c.run moves).told (.ask index last) = .block (some marker)) (back : marker.ref = start) :
    ∃ question ∈ c.questions index moves, ∃ found : Stored,
      question.1.told (.ask index question.2) = .block (some found) ∧ found.ref = other := by
  induction moves generalizing c cat a stand with
  | nil =>
    have here : (c, last) ∈ c.questions index ([] ++ [.ask index last]) := by
      rw [List.nil_append, questions, Move.asked?_ask]
      exact List.mem_cons_self
    have ready : ∃ item ∈ c.ready (a.view last), item.ref = other := due (c, last) here
    obtain ⟨item, told, _, spec⟩ := carrying.asks attached stands passed ready
    obtain rfl := Option.some.inj (Answer.block.inj (told.symm.trans ends))
    change item.ref = start at back
    have farther : Ref.ahead (some start) other < Ref.ahead (some start) start := Ref.ahead_lt_self apart
    rcases spec with met | near
    · exact absurd (met.symm.trans back) apart
    · rw [back] at near
      exact absurd (near.trans farther) (Nat.lt_irrefl _)
  | cons move rest ih =>
    obtain ⟨cat', a', carrying', attached', view, moved⟩ := carrying.step_stand attached move
    have goes {next : Ref} (stands' : a'.rotation = some next) (passed' : next = start ∨
        Ref.ahead (some start) next < Ref.ahead (some start) other) :
        ∃ question ∈ c.questions index (move :: rest), ∃ found : Stored,
          question.1.told (.ask index question.2) = .block (some found) ∧ found.ref = other := by
      obtain ⟨question, listed, found⟩ := ih carrying' attached' stands' passed' (fun question listed => by
        rw [view]
        exact due question (List.mem_append_right _ listed)) ends
      exact ⟨question, List.mem_append_right _ listed, found⟩
    cases asked : move.asked? index with
    | none =>
      rw [asked] at moved
      exact goes (moved.trans stands) passed
    | some now =>
      obtain rfl := Move.eq_ask asked
      have here (more : List Move) : (c, now) ∈ c.questions index (.ask index now :: more) := by
        rw [questions, asked]
        exact List.mem_cons_self
      have ready : ∃ item ∈ c.ready (a.view now), item.ref = other := due (c, now) (here _)
      obtain ⟨item, told, stood, spec⟩ := carrying.asks attached stands passed ready
      rcases spec with met | near
      · exact ⟨_, here rest, _, told, met⟩
      · rw [asked] at moved
        exact goes (moved.trans stood) (.inr near)

theorem Carrying.goes_round (carrying : Carrying l c cat) (attached : c.handles[index]? = some a) {now : Micros}
    (moves : List Move) (still : ∀ done, done <+: moves → (c.run done).bytes = c.bytes)
    (times : ∀ question ∈ c.questions index moves, question.2 = now) {todo done : List Item}
    (round : Item.round (c.ready (a.view now)) a.rotation = todo ++ done)
    (short : (c.questions index moves).length ≤ todo.length) :
    (c.questions index moves).map (fun question => question.1.told (.ask index question.2)) =
      (todo.take (c.questions index moves).length).map fun item => .block (some (item.stored (a.view now))) := by
  induction moves generalizing c cat a todo done with
  | nil => rfl
  | cons move rest ih =>
    obtain ⟨cat', a', carrying', attached', view, moved⟩ := carrying.step_stand attached move
    have same : (c.step move).bytes = c.bytes := still [move] ⟨rest, rfl⟩
    have still' : ∀ done, done <+: rest → ((c.step move).run done).bytes = (c.step move).bytes := by
      intro done start
      rw [same]
      exact still (move :: done) ((List.prefix_cons_inj move).mpr start)
    have times' : ∀ question ∈ (c.step move).questions index rest, question.2 = now := fun question listed =>
      times question (List.mem_append_right _ listed)
    have ready : (c.step move).ready (a'.view now) = c.ready (a.view now) := by
      rw [Commons.ready, Commons.ready, same, view]
    cases asked : move.asked? index with
    | none =>
      rw [asked] at moved
      have none : c.questions index (move :: rest) = (c.step move).questions index rest := by
        rw [questions, asked]
        rfl
      rw [none] at short ⊢
      rw [← view]
      exact ih carrying' attached' still' times' (by rw [ready, moved]; exact round) short
    | some time =>
      obtain rfl := Move.eq_ask asked
      have one : c.questions index (.ask index time :: rest) =
          (c, time) :: (c.step (.ask index time)).questions index rest := by
        rw [questions, asked]
        rfl
      obtain rfl : time = now := times (c, time) (by rw [one]; exact List.mem_cons_self)
      rw [one, List.length_cons] at short
      cases todo with
      | nil => exact absurd short (Nat.not_succ_le_zero _)
      | cons item more =>
        have ordered := carrying.carries.ordered
        have found : (Item.turn (a.view time) (cat.rotated a.rotation) a.rotation).1 = some item := by
          rw [ordered.turn_eq, ← ready_eq carrying attached, round]
          rfl
        have next : Item.round (c.ready (a.view time)) (some item.ref) = more ++ (done ++ [item]) := by
          rw [ready_eq carrying attached] at round ⊢
          rw [Item.round_step (ordered.sorted_ready _) round, List.append_eq, List.append_assoc]
        rw [asked] at moved
        rw [one, List.map_cons, List.length_cons, List.take_succ_cons, List.map_cons, told_ask carrying attached, found,
          ← view]
        rw [ih carrying' attached' still' times' (by
          rw [ready, moved, stand, Item.turn_snd found]
          exact next) (Nat.le_of_succ_le_succ short)]
        rfl

/-- A handle goes round fairly. Between two times that it is told of one marker, it is told of each other
one that was ready whenever it asked since, the second time included. It is told of nothing only when
there is nothing ready, and else of a ready marker. In a store that stays as it is, a turn of questions at
one time tells it of the ready markers in their cyclic order, of each once. -/
theorem Reachable.goes_round_fairly (reached : c.Reachable) (attached : c.handles[index]? = some a) :
    (∀ first marker moves last again, c.told (.ask index first) = .block (some marker) →
      ((c.step (.ask index first)).run moves).told (.ask index last) = .block (some again) →
      again.ref = marker.ref → ∀ other, other ≠ marker.ref →
      (∀ question ∈ (c.step (.ask index first)).questions index (moves ++ [.ask index last]),
        ∃ item ∈ question.1.ready (a.view question.2), item.ref = other) →
      ∃ question ∈ (c.step (.ask index first)).questions index moves, ∃ found : Stored,
        question.1.told (.ask index question.2) = .block (some found) ∧ found.ref = other) ∧
    (∀ now, c.told (.ask index now) = .block none ∧ c.ready (a.view now) = [] ∨
      ∃ item ∈ c.ready (a.view now), c.told (.ask index now) = .block (some (item.stored (a.view now)))) ∧
    ∀ now, ∃ round, Item.IsRound (c.ready (a.view now)) a.rotation round ∧
      ∀ moves, (∀ done, done <+: moves → (c.run done).bytes = c.bytes) →
        (∀ question ∈ c.questions index moves, question.2 = now) →
        (c.questions index moves).length = round.length →
        (c.questions index moves).map (fun question => question.1.told (.ask index question.2)) =
          round.map fun item => .block (some (item.stored (a.view now))) := by
  obtain ⟨l, cat, carrying⟩ := reached.carrying
  have ordered := carrying.carries.ordered
  refine ⟨fun first marker moves last again begins ends back other apart due => ?_, fun now => ?_, fun now => ?_⟩
  · obtain ⟨cat', a', carrying', attached', view, moved⟩ := carrying.step_stand attached (.ask index first)
    rw [Move.asked?_ask] at moved
    have told := (told_ask carrying attached first).symm.trans begins
    obtain ⟨item, found, rfl⟩ := Option.map_eq_some_iff.mp (Answer.block.inj told)
    have stands : a'.rotation = some item.ref := moved.trans (Item.turn_snd found)
    rw [← view] at due
    exact carrying'.passes attached' apart stands (.inl rfl) moves due ends back
  · rw [told_ask carrying attached, ready_eq carrying attached]
    cases found : (Item.turn (a.view now) (cat.rotated a.rotation) a.rotation).1 with
    | none => exact .inl ⟨rfl, (ordered.turn_eq_none_iff _ _).mp found⟩
    | some item => exact .inr ⟨item, ordered.mem_ready_of_turn found, rfl⟩
  · refine ⟨_, Item.isRound_round _ _, fun moves still times length => ?_⟩
    have told := carrying.goes_round attached moves still times (List.append_nil _).symm (Nat.le_of_eq length)
    rw [length, List.take_length] at told
    exact told

theorem Carrying.bytes_ask (carrying : Carrying l c cat) (index : Nat) (now : Micros) :
    (c.step (.ask index now)).bytes = c.bytes := by
  cases there : c.handles[index]? with
  | none => simp only [Commons.step, there]
  | some a =>
    have ran := Attachment.nextMarker_run (carrying.seen (List.mem_of_getElem? there)) now
    have worked : (Operation.nextMarker now).work (a, ⟨a.handle, c.bytes⟩) = .ok () ({ a with
        rotation := (Item.turn (a.view now) (cat.rotated a.rotation) a.rotation).2 }, ⟨a.handle, c.bytes⟩) :=
      Work.map_ok ran
    simp only [Commons.step, there, worked]

theorem Carrying.still_asking (carrying : Carrying l c cat) (index : Nat) (now : Micros) (count : Nat) :
    ∀ done, done <+: List.replicate count (.ask index now) → (c.run done).bytes = c.bytes := by
  intro done start
  obtain ⟨_, same⟩ := List.prefix_replicate_iff.mp start
  rw [same]
  generalize done.length = times
  induction times generalizing c cat with
  | zero => rfl
  | succ times ih =>
    obtain ⟨_, carrying'⟩ := carrying.step (.ask index now)
    rw [List.replicate_succ]
    exact (ih carrying').trans (carrying.bytes_ask index now)

theorem Carrying.told_of_turn (carrying : Carrying l c cat) (attached : c.handles[index]? = some a) (now : Micros)
    (ref : Ref) (turn : (Item.turn (a.view now) (cat.rotated a.rotation) a.rotation).1.map Item.ref = some ref) :
    ∃ marker : Stored, c.told (.ask index now) = .block (some marker) ∧ marker.ref = ref := by
  obtain ⟨item, found, rfl⟩ := Option.map_eq_some_iff.mp turn
  refine ⟨item.stored (a.view now), ?_, rfl⟩
  rw [told_ask carrying attached, found]
  rfl

theorem Carrying.ready_of_mem (carrying : Carrying l c cat) (attached : c.handles[index]? = some a) (now : Micros)
    (ref : Ref) (ready : ref ∈ (cat.ready (a.view now)).map Item.ref) :
    ∃ item ∈ c.ready (a.view now), item.ref = ref := by
  rw [ready_eq carrying attached]
  exact List.mem_map.mp ready

def announcements : List Operation :=
  [.put ⟨⟨9⟩, .source, ⟨100⟩, ⟨#[3]⟩⟩ 1000000, .put ⟨⟨7⟩, .source, ⟨100⟩, ⟨#[4]⟩⟩ 1000000]

/-- A question, and one more flow that is announced. -/
def interlude : List Operation :=
  [.nextMarker 1200000, .put ⟨⟨8⟩, .source, ⟨100⟩, ⟨#[5]⟩⟩ 1200000]

/-- A handle that asks is told of the one flow. It asks again, a third flow comes, and when it is told of
the first flow again it was told of the other one before. Where nothing comes, two questions tell it of
both. -/
theorem goes_round_fairly_over_two : ∃ (c : Commons) (a : Attachment), c.Reachable ∧ c.handles[0]? = some a ∧
    (∃ (marker again : Stored) (other : Ref), c.told (.ask 0 1200000) = .block (some marker) ∧
      ((c.step (.ask 0 1200000)).run (interlude.map (.operate 0))).told (.ask 0 1200000) = .block (some again) ∧
      again.ref = marker.ref ∧ other ≠ marker.ref ∧
      (∀ question ∈ (c.step (.ask 0 1200000)).questions 0 (interlude.map (.operate 0) ++ [.ask 0 1200000]),
        ∃ item ∈ question.1.ready (a.view question.2), item.ref = other) ∧
      ∃ question ∈ (c.step (.ask 0 1200000)).questions 0 (interlude.map (.operate 0)), ∃ found : Stored,
        question.1.told (.ask 0 question.2) = .block (some found) ∧ found.ref = other) ∧
    ∃ round : List Item, round.map (·.key.flow) = [⟨7⟩, ⟨9⟩] ∧
      (c.questions 0 (List.replicate 2 (.ask 0 1200000))).map (fun question => question.1.told (.ask 0 question.2)) =
        round.map fun item => .block (some (item.stored (a.view 1200000))) := by
  obtain ⟨start, fresh, handles, carrying⟩ := @Commons.Fresh.of_config { blockCapacity := 64, maxBlocks := 8 } _ rfl rfl
  obtain ⟨attached, carrying'⟩ := carrying.alone handles announcements
  have first := attached_of_alone attached
  have reached : (start.run (announcements.map (.operate 0))).Reachable := ⟨start, fresh, _, rfl⟩
  obtain ⟨fair, _, rounds⟩ := reached.goes_round_fairly first
  refine ⟨_, _, reached, first, ?_, ?_⟩
  · -- How things stand after the first question, and after what came then.
    obtain ⟨attached₁, carrying₁⟩ := carrying'.alone attached [.nextMarker 1200000]
    obtain ⟨attached₂, carrying₂⟩ := carrying₁.alone attached₁ interlude
    have first₁ := attached_of_alone attached₁
    have first₂ := attached_of_alone attached₂
    obtain ⟨marker, begins, here⟩ := carrying'.told_of_turn first 1200000 ⟨.pack ⟨7⟩ .source ⟨100⟩, 2⟩
      (by decide +kernel)
    obtain ⟨again, ends, back⟩ := carrying₂.told_of_turn first₂ 1200000 ⟨.pack ⟨7⟩ .source ⟨100⟩, 2⟩
      (by decide +kernel)
    have ready₁ := carrying₁.ready_of_mem first₁ 1200000 ⟨.pack ⟨9⟩ .source ⟨100⟩, 0⟩ (by decide +kernel)
    have ready₂ := carrying₂.ready_of_mem first₂ 1200000 ⟨.pack ⟨9⟩ .source ⟨100⟩, 0⟩ (by decide +kernel)
    have apart : (⟨.pack ⟨9⟩ .source ⟨100⟩, 0⟩ : Ref) ≠ marker.ref := by
      rw [here]
      decide
    refine ⟨marker, again, ⟨.pack ⟨9⟩ .source ⟨100⟩, 0⟩, begins, ends, back.trans here.symm, apart, ?due,
      fair 1200000 marker _ 1200000 again begins ends (back.trans here.symm) _ apart ?due⟩
    intro question listed
    rcases List.mem_cons.mp listed with rfl | later
    · exact ready₁
    · rcases List.mem_cons.mp later with rfl | none
      · exact ready₂
      · exact absurd none List.not_mem_nil
  · obtain ⟨round, spec, told⟩ := rounds 1200000
    rw [ready_eq carrying' first] at spec
    have flows : round.map (·.key.flow) = [⟨7⟩, ⟨9⟩] := by
      rw [spec.whole (by decide +kernel)]
      decide +kernel
    have two : round.length = 2 := by simpa using congrArg List.length flows
    refine ⟨round, flows, told _ (carrying'.still_asking 0 1200000 2) (fun question listed => ?_) ?_⟩
    · rcases List.mem_cons.mp listed with rfl | later
      · rfl
      · rcases List.mem_cons.mp later with rfl | none
        · rfl
        · exact absurd none List.not_mem_nil
    · rw [two]
      rfl

end Commons

end Reassembly
