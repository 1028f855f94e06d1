import Reassembly.Proofs.Placing
import Reassembly.Writing.Put

/-!
A put as a function of catalogs. What it works on is the handle's knowledge of its flows and the
catalog; the program on a region that carries the catalog gives the same result, knows the same
afterwards, and leaves the region carrying the catalog of the result.
-/

namespace Reassembly

theorem WriterFlows.insert_insert (writers : WriterFlows) (flow : FlowId) (first second : WriterFlow) :
    (writers.insert flow first).insert flow second = writers.insert flow second := by
  refine Std.ExtTreeMap.ext_getElem? fun other => ?_
  rw [Std.ExtTreeMap.getElem?_insert, Std.ExtTreeMap.getElem?_insert,
    Std.ExtTreeMap.getElem?_insert]
  split <;> rfl

theorem PerSide.set_set {α : Type} (p : PerSide α) (first second : α) (side : Side) :
    (p.set first side).set second side = p.set second side := by
  cases side <;> rfl

namespace Writing

open Store

structure Desk where
  writers : WriterFlows
  cat : Catalog

def markerFor (cat : Catalog) (slot : UInt32) (segment : Segment) (now : Micros) : Item :=
  Item.fresh cat slot .startFlow segment.key (Bytes.ofU32 segment.sequence.word) true now

namespace Desk

variable (l : Layout) (config : StoreConfig) (segment : Segment) (now : Micros) (d : Desk)

/-- What is known of the flow of a segment, unless the flow was left alone too long. -/
def known? : Option WriterFlow :=
  d.writers[segment.flow]?.filter fun writer => !writer.isStale now config.writerFlowTimeout

/-- The writer for a segment, and the catalog after the announcement. -/
def announce? : Option (WriterFlow × Catalog) :=
  match d.known? config segment now with
  | some writer => some (writer, d.cat)
  | none =>
    (d.cat.nextSlot? l).map fun slot =>
      (.fresh now, d.cat.shelve (markerFor d.cat slot segment now))

def firstPiece (writer : WriterFlow) : Piece where
  flow := segment.flow
  side := segment.side
  seq := segment.sequence
  initialSeq := (writer.sides.get segment.side).initialSeq.getD segment.sequence
  now := now

def spread (writer : WriterFlow) (cat : Catalog) : Outcome × Bench :=
  Bench.placeAll l config.blockIdleTimeout ⟨(writer.sides.get segment.side).openBlock, cat⟩
    (firstPiece segment now writer) segment.payload 0 none false

def noted (writer : WriterFlow) (bench : Bench) : WriterFlow where
  lastWrite := now
  sides := writer.sides.set
    ⟨some (firstPiece segment now writer).initialSeq, bench.openBlock⟩ segment.side

def put : Outcome × Desk :=
  match d.announce? l config segment now with
  | none => (.dropped, d)
  | some (writer, cat) =>
    if segment.payload.size = 0 then
      (.empty, ⟨d.writers.insert segment.flow { writer with lastWrite := now }, cat⟩)
    else
      let (outcome, bench) := spread l config segment now writer cat
      (outcome, ⟨d.writers.insert segment.flow (noted segment now writer bench), bench.cat⟩)

end Desk

namespace Session

variable {a : Attachment} {cat : Catalog} {held : Held}

theorem announce_known {segment : Segment} {now : Micros} {writer : WriterFlow}
    (known : Desk.known? a.config segment now ⟨a.writers, cat⟩ = some writer) (held : Held) :
    announce segment now (a, held) = .ok (some writer) (a, held) := by
  rw [Desk.known?] at known
  rw [announce, Work.bind_ok (HoldWith.own_run _ _)]
  dsimp only at known ⊢
  rw [known]
  rfl

theorem announce_marked {segment : Segment} {now : Micros} {entry : Entry} {held' : Held}
    (unknown : Desk.known? a.config segment now ⟨a.writers, cat⟩ = none)
    (inserted : Hold.insertBlock a.layout .startFlow segment.key (Bytes.ofU32 segment.sequence.word)
      true now held = .ok entry held') :
    announce segment now (a, held) = .ok (some (.fresh now)) (a, held') := by
  rw [Desk.known?] at unknown
  rw [announce, Work.bind_ok (HoldWith.own_run _ _)]
  dsimp only at unknown ⊢
  rw [unknown]
  dsimp only
  rw [Work.bind_ok (HoldWith.onStore_ok (Hold.unlessFull_ok inserted))]
  rfl

theorem announce_refused (holds : Holds a.layout held cat) {segment : Segment} {now : Micros}
    (unknown : Desk.known? a.config segment now ⟨a.writers, cat⟩ = none)
    (none_left : cat.nextSlot? a.layout = none) :
    announce segment now (a, held) = .ok none (a, held) := by
  have full := Hold.unlessFull_full (holds.insertBlock_full none_left .startFlow segment.key
    (Bytes.ofU32 segment.sequence.word) true now)
  rw [Desk.known?] at unknown
  rw [announce, Work.bind_ok (HoldWith.own_run _ _)]
  dsimp only at unknown ⊢
  rw [unknown]
  dsimp only
  rw [Work.bind_ok (HoldWith.onStore_ok full)]
  rfl

theorem marker_run {l : Layout} (holds : Holds l held cat) {slot : UInt32}
    (next : cat.nextSlot? l = some slot) (segment : Segment) (now : Micros) :
    ∃ held', Hold.insertBlock l .startFlow segment.key (Bytes.ofU32 segment.sequence.word) true now
        held = .ok (markerFor cat slot segment now).entry held' ∧
      Holds l held' (cat.shelve (markerFor cat slot segment now)) := by
  have size : (Bytes.ofU32 segment.sequence.word).size = 4 := Bytes.size_ofU32 _
  have area := l.nine_le_capacity
  exact holds.insertBlock_run next .startFlow segment.key (Bytes.ofU32 segment.sequence.word) true now
    (by omega)

theorem announce_run (holds : Holds a.layout held cat) (segment : Segment) (now : Micros) :
    ∃ held', announce segment now (a, held) =
        .ok ((Desk.announce? a.layout a.config segment now ⟨a.writers, cat⟩).map Prod.fst)
          (a, held') ∧
      Holds a.layout held'
        ((Desk.announce? a.layout a.config segment now ⟨a.writers, cat⟩).elim cat Prod.snd) := by
  rw [Desk.announce?]
  cases known : Desk.known? a.config segment now ⟨a.writers, cat⟩ with
  | some writer => exact ⟨held, announce_known known held, holds⟩
  | none =>
    dsimp only
    cases next : cat.nextSlot? a.layout with
    | none => exact ⟨held, announce_refused holds known next, holds⟩
    | some slot =>
      obtain ⟨held', inserted, holds'⟩ := marker_run holds next segment now
      exact ⟨held', announce_marked known inserted, holds'⟩

theorem setWriter_run (flow : FlowId) (writer : WriterFlow) :
    setWriter flow writer (a, held) =
      .ok () ({ a with writers := a.writers.insert flow writer }, held) := rfl

theorem placing_ok {α : Type} {flow : FlowId} {side : Side} {writer : WriterFlow} {work : Placing α}
    {outcome : α} {openBlock : Option Ref} {held' : Held}
    (ran : work ((writer.sides.get side).openBlock, held) = .ok outcome (openBlock, held')) :
    placing flow side writer work (a, held) =
      .ok outcome ({ a with writers := a.writers.insert flow { writer with
        sides := writer.sides.set { writer.sides.get side with openBlock } side } }, held') := by
  simp only [placing, Work.onPart, ran]

end Session

theorem putHeld_empty {a : Attachment} {segment : Segment} {now : Micros} {writer : WriterFlow}
    {held held₁ : Held} (announced : Session.announce segment now (a, held) = .ok (some writer) (a, held₁))
    (empty : segment.payload.size = 0) :
    putHeld segment now (a, held) = .ok .empty
      ({ a with writers := a.writers.insert segment.flow { writer with lastWrite := now } }, held₁) := by
  rw [putHeld, Work.bind_ok announced]
  dsimp only
  rw [Work.bind_ok (Session.setWriter_run _ _), if_pos empty]
  rfl

theorem putHeld_placed {a : Attachment} {segment : Segment} {now : Micros} {writer : WriterFlow}
    {held held₁ held₂ : Held}
    (announced : Session.announce segment now (a, held) = .ok (some writer) (a, held₁))
    (full : segment.payload.size ≠ 0) {outcome : Outcome} {bench : Bench}
    (placed : Placing.placeFrom a.layout a.config.blockIdleTimeout (Desk.firstPiece segment now writer)
      segment.payload 0 none false ((writer.sides.get segment.side).openBlock, held₁) =
        .ok outcome (bench.openBlock, held₂)) :
    putHeld segment now (a, held) = .ok outcome
      ({ a with writers := a.writers.insert segment.flow (Desk.noted segment now writer bench) },
        held₂) := by
  rw [putHeld, Work.bind_ok announced]
  dsimp only
  rw [Work.bind_ok (Session.setWriter_run _ _), if_neg full, Work.bind_ok (HoldWith.own_run _ _)]
  refine (@Writing.Session.placing_ok _ _ _ _ _ _ _ outcome bench.openBlock held₂ ?_).trans ?_
  · rw [PerSide.get_set_self]
    exact placed
  · simp only [WriterFlows.insert_insert, PerSide.get_set_self, PerSide.set_set]
    rfl

theorem putHeld_run {a : Attachment} {cat : Catalog} {held : Held} (holds : Holds a.layout held cat)
    (segment : Segment) (now : Micros) :
    ∃ held', putHeld segment now (a, held) =
        .ok (Desk.put a.layout a.config segment now ⟨a.writers, cat⟩).1
          ({ a with writers := (Desk.put a.layout a.config segment now ⟨a.writers, cat⟩).2.writers },
            held') ∧
      Holds a.layout held' (Desk.put a.layout a.config segment now ⟨a.writers, cat⟩).2.cat := by
  obtain ⟨held₁, announced, holds₁⟩ := Session.announce_run holds segment now
  rw [Desk.put]
  cases found : Desk.announce? a.layout a.config segment now ⟨a.writers, cat⟩ with
  | none =>
    rw [found] at announced holds₁
    refine ⟨held₁, ?_, holds₁⟩
    rw [putHeld, Work.bind_ok announced]
    rfl
  | some pair =>
    obtain ⟨writer, cat'⟩ := pair
    rw [found] at announced holds₁
    dsimp only [Option.map_some, Option.elim_some] at announced holds₁ ⊢
    by_cases empty : segment.payload.size = 0
    · rw [if_pos empty]
      exact ⟨held₁, putHeld_empty announced empty, holds₁⟩
    · rw [if_neg empty]
      obtain ⟨held₂, placed, holds₂⟩ := Placing.placeFrom_run
        (b := ⟨(writer.sides.get segment.side).openBlock, cat'⟩) holds₁ segment.payload 0 none false
      exact ⟨held₂, putHeld_placed announced empty placed, holds₂⟩

end Writing

open Store Writing in
theorem Attachment.put_run {a : Attachment} {r : Region} {cat : Catalog}
    (carries : Carries a.layout r cat) (segment : Segment) (now : Micros) :
    ∃ r', Attachment.put segment now (a, r) =
        .ok (Desk.put a.layout a.config segment now ⟨a.writers, cat⟩).1
          ({ a with writers := (Desk.put a.layout a.config segment now ⟨a.writers, cat⟩).2.writers },
            r') ∧
      Carries a.layout r' (Desk.put a.layout a.config segment now ⟨a.writers, cat⟩).2.cat := by
  obtain ⟨held', ran, holds'⟩ := putHeld_run carries segment now
  refine ⟨held'.region, ?_, holds'.carries⟩
  rw [Attachment.put, Work.bind_ok (Work.get_run _)]
  exact carries.runWith_ok ran

end Reassembly
