import Reassembly.Proofs.Outcomes
import Reassembly.Proofs.Rejections

/-!
A put that stores nothing. Its pieces are stored already, or the store has no slot left for them; so of
all that a write can do to a store only the completion of the open block remains, behind the marker that
announces the flow.
-/

namespace Reassembly.Writing

open Store

variable {l : Layout} {idle : Micros} {b b' : Bench} {piece : Piece} {chunk : ByteArray}
  {held held' : Held}

namespace Placing

theorem Shuts.trans {b₁ b₂ : Bench} {held₁ held₂ : Held} (first : Shuts l b held b₁ held₁)
    (second : Shuts l b₁ held₁ b₂ held₂) : Shuts l b held b₂ held₂ := by
  cases first with
  | kept => exact second
  | forgotten =>
    cases second with
    | kept => exact .forgotten
    | forgotten => exact .forgotten
    | completed found _ _ => cases found
  | completed found writable ran =>
    cases second with
    | kept => exact .completed found writable ran
    | forgotten => exact .completed found writable ran
    | completed found _ _ => cases found

theorem nextSlot?_of_unstored (outcome : (b.storeNew l piece chunk).1.outcome.stored = false) :
    b.cat.nextSlot? l = none := by
  rw [Bench.storeNew] at outcome
  split at outcome
  · next none_left => exact none_left
  · cases outcome

theorem storeNew_full (none_left : b.cat.nextSlot? l = none) :
    b.storeNew l piece chunk = (⟨chunk.size, .dropped⟩, b) := by
  rw [Bench.storeNew, none_left]

theorem storeInNewBlock_shuts (holds : Holds l held b.cat) {placed : Placement} {own : Option Ref}
    (ran : storeInNewBlock l piece chunk (b.openBlock, held) = .ok placed (own, held'))
    (outcome : (b.storeNew l piece chunk).1.outcome.stored = false) :
    Shuts l b held (b.storeNew l piece chunk).2 held' := by
  have none_left := nextSlot?_of_unstored outcome
  rw [storeInNewBlock_full holds none_left] at ran
  obtain ⟨_, same⟩ := EStateM.Result.ok.inj ran
  obtain rfl := (Prod.mk.inj same).2
  rw [storeNew_full none_left]
  exact .kept

theorem continueOpen_shuts (holds : Holds l held b.cat) (framable : Framable l chunk)
    {current : Option Item}
    (present : ∀ item, current = some item → b.located = some item ∧ item.header.isComplete = false)
    {placed : Placement} (first : b.continueOpen? l piece chunk current = some (placed, b'))
    (outcome : placed.outcome.stored = false) {answer : Option Placement} {own : Option Ref}
    (ran : continueOpen l piece chunk (current.map fun item => (item.slot, item.header))
      (b.openBlock, held) = .ok answer (own, held')) :
    Shuts l b held b' held' := by
  cases current with
  | none => cases first
  | some item =>
    obtain ⟨located, writable⟩ := present item rfl
    have member := Bench.mem_of_located located
    rw [Bench.continueOpen?] at first
    rw [Option.map_some, continueOpen] at ran
    by_cases apart : (item.header.hasData && item.header.endSeq != piece.seq) = true
    · rw [if_pos apart] at first
      cases first
    · have follows (data : item.header.hasData = true) : item.header.endSeq = piece.seq := by
        simpa [data] using apart
      have judged := judge_eq framable writable follows
      rw [if_neg apart] at first
      dsimp only at ran
      rw [if_neg apart] at ran
      by_cases room : item.header.hasRoom chunk.size l.capacity = true
      · rw [if_pos room] at first
        obtain ⟨rfl, rfl⟩ := Prod.mk.inj (Option.some.inj first)
        cases outcome
      · rw [if_neg room] at first judged
        have same := Option.some.inj first
        have none_left := @nextSlot?_of_unstored l ⟨none, b.cat.complete item⟩ piece chunk
          (by rw [same]; exact outcome)
        rw [storeNew_full none_left] at same
        obtain ⟨_, rfl⟩ := Prod.mk.inj same
        obtain ⟨held₁, closed, holds₁⟩ := holds.complete_run member
        have headed : setHeader l item.slot item.header.close (b.openBlock, held) =
            .ok () (b.openBlock, held₁) := HoldWith.onStore_ok closed
        have dropped := @storeInNewBlock_full l ⟨none, b.cat.complete item⟩ piece chunk _ holds₁ none_left none
        rw [Work.bind_ok (offer_full judged b.openBlock held)] at ran
        dsimp only at ran
        rw [Work.bind_ok headed, Work.bind_ok (HoldWith.setOwn_run _ _ _), Work.map_ok dropped] at ran
        obtain ⟨_, states⟩ := EStateM.Result.ok.inj ran
        obtain rfl := (Prod.mk.inj states).2
        exact .completed located writable closed

theorem continueOpen_passed {current : Option Item}
    (first : b.continueOpen? l piece chunk current = none) (own : Option Ref) (held : Held) :
    continueOpen l piece chunk (current.map fun item => (item.slot, item.header)) (own, held) =
      .ok none (own, held) := by
  cases current with
  | none => rfl
  | some item =>
    rw [Bench.continueOpen?] at first
    rw [Option.map_some, continueOpen]
    split at first
    · next apart =>
      dsimp only
      rw [if_pos apart]
      rfl
    · split at first <;> cases first

theorem meetPredecessor_passed (holds : Holds l held b.cat)
    (unstored : ∀ placed b', b.meetPredecessor? l idle piece chunk = some (placed, b') →
      placed.outcome.stored = false) :
    meetPredecessor l idle piece chunk (b.openBlock, held) =
        .ok ((b.meetPredecessor? l idle piece chunk).map Prod.fst) (b.openBlock, held) ∧
      (b.meetPredecessor? l idle piece chunk).elim b Prod.snd = b := by
  have searched := holds.predecessor_run piece.flow piece.side piece.seq
  rw [show FlowKey.pack piece.flow piece.side piece.seq = piece.key from rfl] at searched
  rw [meetPredecessor, Work.bind_ok (HoldWith.onStore_ok searched)]
  rw [Bench.meetPredecessor?] at unstored ⊢
  cases found : b.cat.predecessor? piece.key with
  | none => exact ⟨rfl, rfl⟩
  | some item =>
    rw [found] at unstored
    dsimp only [Option.map_some] at unstored ⊢
    by_cases covered : Seq.inRange piece.seq item.header.base item.header.endSeq = true
    · rw [if_pos covered, if_pos covered]
      exact ⟨rfl, rfl⟩
    · rw [if_neg covered] at unstored
      rw [if_neg covered, if_neg covered]
      by_cases takes : Bench.takes l idle piece chunk item = true
      · rw [if_pos takes] at unstored
        have stored := unstored _ _ rfl
        dsimp only at stored
        split at stored <;> cases stored
      · rw [if_neg takes]
        rw [Bench.takes] at takes
        rw [if_neg takes]
        exact ⟨rfl, rfl⟩

theorem settle_shuts (holds : Holds l held b.cat) (framable : Framable l chunk)
    {current : Option Item}
    (present : ∀ item, current = some item → b.located = some item ∧ item.header.isComplete = false)
    {placed : Placement}
    (result : ((b.continueOpen? l piece chunk current).or
      (b.meetPredecessor? l idle piece chunk)).getD (b.storeNew l piece chunk) = (placed, b'))
    (outcome : placed.outcome.stored = false) {own : Option Ref}
    (ran : settle l idle piece chunk (current.map fun item => (item.slot, item.header))
      (b.openBlock, held) = .ok placed (own, held')) :
    Shuts l b held b' held' := by
  rw [settle] at ran
  cases first : b.continueOpen? l piece chunk current with
  | some pair =>
    rw [first] at result
    obtain rfl := result
    obtain ⟨held₁, continued, _⟩ := continueOpen_run holds framable fun item is =>
      ⟨Bench.mem_of_located (present item is).1, (present item is).2⟩
    rw [Work.bind_ok continued, first] at ran
    obtain ⟨_, same⟩ := EStateM.Result.ok.inj ran
    obtain rfl := (Prod.mk.inj same).2
    exact continueOpen_shuts holds framable present first outcome continued
  | none =>
    rw [first, Option.none_or] at result
    rw [Work.bind_ok (continueOpen_passed first _ _)] at ran
    dsimp only at ran
    have unstored : ∀ placed b', b.meetPredecessor? l idle piece chunk = some (placed, b') →
        placed.outcome.stored = false := by
      intro placed' b₁ met
      rw [met] at result
      obtain ⟨rfl, rfl⟩ := Prod.mk.inj result
      exact outcome
    obtain ⟨passed, unchanged⟩ := meetPredecessor_passed holds unstored
    rw [Work.bind_ok passed] at ran
    cases second : b.meetPredecessor? l idle piece chunk with
    | some pair =>
      rw [second] at ran unchanged result
      obtain rfl := result
      obtain ⟨_, same⟩ := EStateM.Result.ok.inj ran
      obtain rfl := (Prod.mk.inj same).2
      obtain rfl : b' = b := unchanged
      exact .kept
    | none =>
      rw [second] at ran result
      have stored := storeInNewBlock_shuts holds ran
      rw [Option.getD_none] at result
      rw [result] at stored
      exact stored outcome

theorem placePiece_shuts (holds : Holds l held b.cat) {data : ByteArray} {offset : Nat}
    (inside : offset < data.size) {placed : Placement}
    (result : b.place l idle piece data offset = (placed, b'))
    (outcome : placed.outcome.stored = false) {own : Option Ref}
    (ran : placePiece l idle piece data offset (b.openBlock, held) = .ok placed (own, held')) :
    Shuts l b held b' held' := by
  obtain ⟨held₁, reopened, holds₁, _, shut⟩ := @reopen_run l idle b _ holds piece.now
  have searched : successorStart l piece.flow piece.side piece.seq held₁ =
      .ok ((b.reopen idle piece.now).cat.successor? piece.key) held₁ :=
    holds₁.successorStart_run piece.flow piece.side piece.seq
  have framable := @part_framable l _ piece holds₁.ordered _ _ inside
  apply shut.trans
  rw [Bench.place] at result
  refine settle_shuts holds₁ framable (fun _ => Bench.located_reopen) result outcome (Eq.trans ?_ ran)
  rw [placePiece, Work.bind_ok reopened, Work.bind_ok (HoldWith.onStore_ok searched), Bench.part,
    Bench.pieceLength]
  cases (b.reopen idle piece.now).cat.successor? piece.key <;> rfl

end Placing

open Placing in
theorem Bench.Fit.placeFrom_shuts {base : Seq} {data : ByteArray} {offset : Nat}
    (fit : b.Fit l piece.lane) (here : piece.seq = base.advance offset) (holds : Holds l held b.cat)
    {stored : Option Outcome}
    (before : ∀ outcome, stored = some outcome → outcome.stored = true) {duplicate : Bool}
    {outcome : Outcome} {own : Option Ref}
    (ran : placeFrom l idle piece data offset stored duplicate (b.openBlock, held) =
      .ok outcome (own, held'))
    (unstored : (b.placeAll l idle piece data offset stored duplicate).1.stored = false) :
    Shuts l b held (b.placeAll l idle piece data offset stored duplicate).2 held' := by
  fun_induction Bench.placeAll l idle b piece data offset stored duplicate generalizing held with
  | case1 b piece offset stored duplicate rest placed b' taken dropped =>
    obtain ⟨held₁, first, _⟩ := @placePiece_run l idle b piece _ holds _ _ rest
    rw [taken] at first
    rw [placeFrom, dif_pos rest, Work.bind_ok first, if_pos dropped] at ran
    obtain ⟨_, same⟩ := EStateM.Result.ok.inj ran
    obtain rfl := (Prod.mk.inj same).2
    exact placePiece_shuts holds rest taken (by rw [dropped]; rfl) first
  | case2 b piece offset stored duplicate rest placed b' taken kept duplicate' stored' progress =>
    rename_i ih
    obtain ⟨held₁, first, holds₁⟩ := @placePiece_run l idle b piece _ holds _ _ rest
    have step := (@Bench.place_placed _ idle _ piece) fit data offset
    have spec := (@Bench.Fit.place_spec _ idle) fit rest here
    rw [taken] at first holds₁ step spec
    dsimp only at first holds₁ spec step
    rw [placeFrom, dif_pos rest, Work.bind_ok first] at ran
    simp only [if_neg kept, dif_pos progress] at ran
    by_cases again : placed.outcome = .retransmission
    · have same : stored' = stored := if_pos again
      have shut := placePiece_shuts holds rest taken (by rw [again]; rfl) first
      exact shut.trans (ih spec.1 (Piece.seq_advance here _) holds₁ (same ▸ before) ran unstored)
    · -- it is stored, or one before it was: then the outcome says so
      obtain ⟨first, decided, good⟩ := step.decides before kept again
      have known : stored' = some first := (if_neg again).trans decided
      rw [known, Bench.placeAll_of_stored, good] at unstored
      cases unstored
  | case3 b piece offset stored duplicate rest placed b' taken kept duplicate' stored' =>
    rename_i stuck
    exact absurd (fit.consumed_pos rest taken kept) stuck
  | case4 b piece offset stored duplicate done =>
    rw [placeFrom, dif_neg done] at ran
    obtain ⟨_, same⟩ := EStateM.Result.ok.inj ran
    obtain rfl := (Prod.mk.inj same).2
    exact .kept

theorem Bench.Fit.placeAll_dropped {base : Seq} {data : ByteArray} {offset : Nat}
    (fit : b.Fit l piece.lane) (here : piece.seq = base.advance offset) {stored : Option Outcome}
    (before : ∀ outcome, stored = some outcome → outcome.stored = true) {duplicate : Bool}
    (some : stored.isSome = true ∨ duplicate = true ∨ offset < data.size)
    (dropped : (b.placeAll l idle piece data offset stored duplicate).1 = .dropped) :
    (b.placeAll l idle piece data offset stored duplicate).2.cat.nextSlot? l = none := by
  fun_induction Bench.placeAll l idle b piece data offset stored duplicate with
  | case1 b piece offset stored duplicate rest placed b' taken lost =>
    have spec := (@Bench.Fit.place_spec _ idle) fit rest here
    rw [taken] at spec
    exact (spec.2.2.1 lost).1
  | case2 b piece offset stored duplicate rest placed b' taken kept duplicate' stored' progress =>
    rename_i ih
    have step := (@Bench.place_placed _ idle _ piece) fit data offset
    have spec := (@Bench.Fit.place_spec _ idle) fit rest here
    rw [taken] at step spec
    dsimp only at spec step
    have moved := Piece.seq_advance here placed.consumed
    by_cases again : placed.outcome = .retransmission
    · have same : stored' = stored := if_pos again
      have seen : duplicate' = true := by simp [duplicate', again]
      exact ih spec.1 moved (same ▸ before) (.inr (.inl seen)) dropped
    · obtain ⟨first, decided, good⟩ := step.decides before kept again
      have known : stored' = Option.some first := (if_neg again).trans decided
      exact ih spec.1 moved (by rintro _ same; rw [known] at same; cases same; exact good)
        (.inl (by rw [known]; rfl)) dropped
  | case3 b piece offset stored duplicate rest placed b' taken kept duplicate' stored' =>
    rename_i stuck
    exact absurd (fit.consumed_pos rest taken kept) stuck
  | case4 b piece offset stored duplicate done =>
    rw [Placing.summary] at dropped
    cases known : stored with
    | some outcome =>
      have good := before outcome known
      rw [known, Option.getD_some] at dropped
      rw [show outcome = .dropped from dropped] at good
      cases good
    | none =>
      have seen : duplicate = true := by simpa [known, done] using some
      rw [known, seen] at dropped
      cases dropped

theorem Placing.Shuts.of_none (shuts : Shuts l b held b' held') (none_open : b.openBlock = none) :
    b'.cat = b.cat ∧ held' = held := by
  cases shuts with
  | kept => exact ⟨rfl, rfl⟩
  | forgotten => exact ⟨rfl, rfl⟩
  | completed found _ _ =>
    rw [Bench.located, none_open] at found
    cases found

inductive Desk.Abstains (l : Layout) (config : StoreConfig) (segment : Segment) (now : Micros) (d : Desk)
    (held : Held) : Catalog → Held → Prop
  /-- The flow is known, and at most the open block of the side is completed. -/
  | known {writer : WriterFlow} (known : d.known? config segment now = some writer) {b' : Bench}
      {held' : Held}
      (shuts : Placing.Shuts l ⟨(writer.sides.get segment.side).openBlock, d.cat⟩ held b' held') :
      Abstains l config segment now d held b'.cat held'
  /-- The marker of the flow is stored. -/
  | marked {slot : UInt32} {held' : Held} (unknown : d.known? config segment now = none)
      (next : d.cat.nextSlot? l = some slot)
      (ran : Hold.insertBlock l .startFlow segment.key (Bytes.ofU32 segment.sequence.word) true now
        held = .ok (markerFor d.cat slot segment now).entry held') :
      Abstains l config segment now d held (d.cat.shelve (markerFor d.cat slot segment now)) held'
  /-- There is no slot for the marker. -/
  | refused (unknown : d.known? config segment now = none) (none_left : d.cat.nextSlot? l = none) :
      Abstains l config segment now d held d.cat held

section
variable {a a' : Attachment} {cat cat' : Catalog} {segment : Segment} {now : Micros} {outcome : Outcome}
  {held₁ : Held}

theorem Desk.Fit.putHeld_shuts (fit : Desk.Fit a.layout ⟨a.writers, cat⟩) {writer : WriterFlow}
    (found : Desk.announce? a.layout a.config segment now ⟨a.writers, cat⟩ = some (writer, cat'))
    (announced : Session.announce segment now (a, held) = .ok (some writer) (a, held₁))
    (holds₁ : Holds a.layout held₁ cat')
    (ran : putHeld segment now (a, held) = .ok outcome (a', held'))
    (unstored : (Desk.put a.layout a.config segment now ⟨a.writers, cat⟩).1.stored = false) :
    ∃ b', b'.cat = (Desk.put a.layout a.config segment now ⟨a.writers, cat⟩).2.cat ∧
      Placing.Shuts a.layout ⟨(writer.sides.get segment.side).openBlock, cat'⟩ held₁ b' held' := by
  rw [Desk.put_of_announced found] at unstored ⊢
  by_cases empty : segment.payload.size = 0
  · rw [if_pos empty] at unstored ⊢
    rw [putHeld_empty announced empty] at ran
    obtain ⟨_, same⟩ := EStateM.Result.ok.inj ran
    obtain rfl := (Prod.mk.inj same).2
    exact ⟨_, rfl, .kept⟩
  · rw [if_neg empty] at unstored ⊢
    obtain ⟨held₂, placed, _⟩ := @Placing.placeFrom_run a.layout a.config.blockIdleTimeout
      ⟨(writer.sides.get segment.side).openBlock, cat'⟩ (Desk.firstPiece segment now writer) _ holds₁
      segment.payload 0 none false
    rw [putHeld_placed announced empty placed] at ran
    obtain ⟨_, same⟩ := EStateM.Result.ok.inj ran
    obtain rfl := (Prod.mk.inj same).2
    have none_stored : ∀ kept, (none : Option Outcome) = some kept → kept.stored = true :=
      fun _ same => absurd same.symm (Option.some_ne_none _)
    exact ⟨_, rfl, (fit.bench found).placeFrom_shuts (Seq.advance_zero segment.sequence).symm holds₁
      none_stored placed unstored⟩

theorem Desk.Fit.putHeld_abstains (fit : Desk.Fit a.layout ⟨a.writers, cat⟩)
    (holds : Holds a.layout held cat) (ran : putHeld segment now (a, held) = .ok outcome (a', held'))
    (unstored : (Desk.put a.layout a.config segment now ⟨a.writers, cat⟩).1.stored = false) :
    Desk.Abstains a.layout a.config segment now ⟨a.writers, cat⟩ held
      (Desk.put a.layout a.config segment now ⟨a.writers, cat⟩).2.cat held' := by
  cases known : Desk.known? a.config segment now ⟨a.writers, cat⟩ with
  | some writer =>
    have found : Desk.announce? a.layout a.config segment now ⟨a.writers, cat⟩ = some (writer, cat) := by
      rw [Desk.announce?, known]
    obtain ⟨b', same, shuts⟩ := fit.putHeld_shuts found (Session.announce_known known held) holds ran
      unstored
    rw [← same]
    exact .known known shuts
  | none =>
    cases next : cat.nextSlot? a.layout with
    | none =>
      have found : Desk.announce? a.layout a.config segment now ⟨a.writers, cat⟩ = none := by
        rw [Desk.announce?, known]
        dsimp only
        rw [next, Option.map_none]
      rw [putHeld, Work.bind_ok (Session.announce_refused holds known next)] at ran
      obtain ⟨_, same⟩ := EStateM.Result.ok.inj ran
      obtain rfl := (Prod.mk.inj same).2
      rw [Desk.put_of_unannounced found]
      exact .refused known next
    | some slot =>
      have found : Desk.announce? a.layout a.config segment now ⟨a.writers, cat⟩ =
          some (.fresh now, cat.shelve (markerFor cat slot segment now)) := by
        rw [Desk.announce?, known]
        dsimp only
        rw [next, Option.map_some]
      obtain ⟨held₁, inserted, holds₁⟩ := Session.marker_run holds next segment now
      obtain ⟨b', same, shuts⟩ := fit.putHeld_shuts found (Session.announce_marked known inserted)
        holds₁ ran unstored
      -- a flow that was just announced has no open block
      have none_open : ((WriterFlow.fresh now).sides.get segment.side).openBlock = none := by
        cases segment.side <;> rfl
      obtain ⟨kept, rfl⟩ := shuts.of_none none_open
      rw [← same, kept]
      exact .marked known next inserted

end

theorem Desk.Fit.put_dropped {config : StoreConfig} {segment : Segment} {now : Micros} {d : Desk}
    (fit : d.Fit l) (dropped : (d.put l config segment now).1 = .dropped) :
    (d.put l config segment now).2.cat.nextSlot? l = none := by
  cases found : d.announce? l config segment now with
  | none =>
    rw [Desk.put_of_unannounced found]
    rw [Desk.announce?] at found
    split at found
    · cases found
    · exact Option.map_eq_none_iff.mp found
  | some pair =>
    obtain ⟨writer, cat⟩ := pair
    rw [Desk.put_of_announced found] at dropped ⊢
    by_cases empty : segment.payload.size = 0
    · rw [if_pos empty] at dropped
      cases dropped
    · rw [if_neg empty] at dropped ⊢
      have none_stored : ∀ kept, (none : Option Outcome) = some kept → kept.stored = true :=
        fun _ same => absurd same.symm (Option.some_ne_none _)
      exact (fit.bench found).placeAll_dropped (Seq.advance_zero segment.sequence).symm none_stored
        (.inr (.inr (Nat.pos_of_ne_zero empty))) dropped

end Reassembly.Writing
