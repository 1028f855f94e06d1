import Reassembly.Proofs.Bench

/-!
Placing on a held store. Where the store carries a catalog, every step of the program gives the result
that the bench gives and leaves the store carrying the bench's catalog; none of them fails.
-/

namespace Reassembly.Writing

open Store

namespace Placing

variable {l : Layout} {idle : Micros} {b : Bench} {piece : Piece} {chunk : ByteArray} {held : Held}

/-- What becomes of the open block where a write stores nothing, and of the held store: nothing, or the
block is open no longer, or it is completed as well. -/
inductive Shuts (l : Layout) (b : Bench) (held : Held) : Bench → Held → Prop
  | kept : Shuts l b held b held
  | forgotten : Shuts l b held ⟨none, b.cat⟩ held
  | completed {item : Item} {held' : Held} (found : b.located = some item)
      (writable : item.header.isComplete = false)
      (ran : Hold.setHeader l item.slot item.header.close held = .ok () held') :
      Shuts l b held ⟨none, b.cat.complete item⟩ held'

theorem reopen_run (holds : Holds l held b.cat) (now : Micros) :
    ∃ held', reopen l idle now (b.openBlock, held) =
        .ok ((b.writable? idle now).map fun item => (item.slot, item.header))
          ((b.reopen idle now).openBlock, held') ∧
      Holds l held' (b.reopen idle now).cat ∧
      ((∀ item, b.located = some item → item.header.expired now idle = false) → held' = held) ∧
      Shuts l b held (b.reopen idle now) held' := by
  rw [reopen, Work.bind_ok (HoldWith.own_run _ _)]
  cases current : b.openBlock with
  | none =>
    refine ⟨held, ?_, ?_, fun _ => rfl, ?_⟩
    · simp only [Bench.writable?, Bench.reopen, Bench.located, current, Option.bind_none,
        Option.filter_none, Option.map_none]
      rfl
    · simpa only [Bench.reopen, Bench.located, current, Option.bind_none] using holds
    · simpa only [Bench.reopen, Bench.located, current, Option.bind_none] using .forgotten
  | some ref =>
    have found : b.located = b.cat.find? ref := by rw [Bench.located, current, Option.bind_some]
    dsimp only
    rw [Work.bind_ok (HoldWith.onStore_ok (holds.resolve_run ref))]
    cases here : b.cat.find? ref with
    | none =>
      refine ⟨held, ?_, ?_, fun _ => rfl, ?_⟩
      · simp only [Bench.writable?, Bench.reopen, found, here, Option.filter_none, Option.map_none]
        rfl
      · simpa only [Bench.reopen, found, here] using holds
      · simpa only [Bench.reopen, found, here] using .forgotten
    | some item =>
      have member := Catalog.mem_of_find? here
      simp only [Option.map_some]
      rw [Work.bind_ok (HoldWith.onStore_ok (holds.header_run member))]
      simp only [Bench.writable?, Bench.reopen, found, here, Option.filter_some]
      by_cases done : item.header.isComplete = true
      · refine ⟨held, ?_, ?_, fun _ => rfl, ?_⟩
        · simp only [done, Bool.true_or, if_true]
          rfl
        · simpa only [done, if_true] using holds
        · simpa only [done, if_true] using .forgotten
      · rw [Bool.not_eq_true] at done
        by_cases old : item.header.expired now idle = true
        · obtain ⟨held', closed, holds'⟩ := holds.complete_run member
          refine ⟨held', ?_, ?_, fun busy => ?_, ?_⟩
          · simp only [done, old, Bool.false_or, if_true, Bool.false_eq_true, if_false]
            have ran : setHeader l item.entry.slot item.header.close (some ref, held) =
                .ok () (some ref, held') := HoldWith.onStore_ok closed
            rw [Work.bind_ok ran]
            rfl
          · simpa only [done, old, Bool.false_eq_true, if_false, if_true] using holds'
          · rw [busy item rfl] at old
            cases old
          · simpa only [done, old, Bool.false_eq_true, if_false, if_true] using
              .completed (found.trans here) done closed
        · rw [Bool.not_eq_true] at old
          refine ⟨held, ?_, ?_, fun _ => rfl, ?_⟩
          · simp only [done, old, Bool.false_or, Bool.false_eq_true, if_false, Bool.not_false,
              if_true, current]
            rfl
          · simpa only [done, old, Bool.false_eq_true, if_false] using holds
          · simpa only [done, old, Bool.false_eq_true, if_false] using .kept

structure Framable (l : Layout) (chunk : ByteArray) : Prop where
  some : 0 < chunk.size
  fits : chunk.size ≤ (gate l).maxSegmentLen

theorem Framable.small (framable : Framable l chunk) : chunk.size < UInt32.size := by
  have fits := framable.fits
  have limit := l.capacity_lt
  rw [Block.Gate.maxSegmentLen, gate] at fits
  rw [UInt32.size]
  dsimp only at fits
  omega

theorem Framable.room (framable : Framable l chunk) :
    Block.initialSize + Block.frameLengthSize + chunk.size ≤ l.capacity := by
  have fits := framable.fits
  have some := framable.some
  rw [Block.Gate.maxSegmentLen, gate, Block.initialSize, Block.frameLengthSize] at fits
  rw [Block.initialSize, Block.frameLengthSize]
  dsimp only at fits
  omega

theorem judge_eq (framable : Framable l chunk) {header : Block.Header}
    (writable : header.isComplete = false)
    (follows : header.hasData = true → header.endSeq = piece.seq) :
    (gate l).judge header piece.seq chunk.size =
      if header.hasRoom chunk.size l.capacity then .ok else .noSpace :=
  (gate l).judge_eq writable framable.some framable.small follows

theorem overtakes_run (holds : Holds l held b.cat) (seq : Seq) :
    overtakes l seq (b.openBlock, held) = .ok (b.overtakes seq) (b.openBlock, held) := by
  rw [overtakes, Work.bind_ok (HoldWith.own_run _ _), Bench.overtakes]
  cases current : b.openBlock with
  | none => simp only [Bench.located, current, Option.bind_none, Work.pure_run]
  | some ref =>
    have found : b.located = b.cat.find? ref := by rw [Bench.located, current, Option.bind_some]
    dsimp only
    rw [found, Work.bind_ok (HoldWith.onStore_ok (holds.resolve_run ref))]
    cases here : b.cat.find? ref with
    | none => rfl
    | some item =>
      simp only [Option.map_some]
      rw [Work.bind_ok (HoldWith.onStore_ok (holds.header_run (Catalog.mem_of_find? here)))]
      rfl

theorem offer_run (holds : Holds l held b.cat) (framable : Framable l chunk) {item : Item}
    (member : item ∈ b.cat.items) (judged : (gate l).judge item.header piece.seq chunk.size = .ok)
    (room : item.header.hasRoom chunk.size l.capacity = true) (own : Option Ref) :
    ∃ held₁ held₂,
      offer l item.slot item.header piece chunk (own, held) =
        .ok (.ok, (item.grown piece.seq chunk piece.now).header) (own, held₁) ∧
      setHeader l item.slot (item.grown piece.seq chunk piece.now).header (own, held₁) =
        .ok () (own, held₂) ∧
      Holds l held₂ (b.cat.append item piece.seq chunk piece.now) := by
  obtain ⟨held₁, held₂, pushed, headed, holds₂⟩ := holds.push_run member piece.now judged
    ((holds.ordered.hasRoom_iff member framable.small).mp room)
  exact ⟨held₁, held₂, HoldWith.onStore_ok pushed, HoldWith.onStore_ok headed, holds₂⟩

theorem offer_full {slot : UInt32} {header : Block.Header}
    (judged : (gate l).judge header piece.seq chunk.size = .noSpace) (own : Option Ref) (held : Held) :
    offer l slot header piece chunk (own, held) = .ok (.noSpace, header.close) (own, held) := by
  rw [offer]
  refine HoldWith.onStore_ok ?_
  rw [Block.Gate.push, judged]
  rfl

theorem enter_run (holds : Holds l held b.cat) (framable : Framable l chunk) {slot : UInt32}
    (next : b.cat.nextSlot? l = some slot) {fresh : Item}
    (fresh_eq : Item.fresh b.cat slot .l4Payload piece.key (Bytes.ofU32 piece.initialSeq.word) false
      piece.now = fresh) :
    ∃ held₁ held₂ held₃,
      Hold.insertBlock l .l4Payload piece.key (Bytes.ofU32 piece.initialSeq.word) false piece.now held =
        .ok fresh.entry held₁ ∧
      Hold.header l fresh.slot held₁ = .ok fresh.header held₁ ∧
      offer l fresh.slot fresh.header piece chunk (b.openBlock, held₁) =
        .ok (.ok, (fresh.grown piece.seq chunk piece.now).header) (b.openBlock, held₂) ∧
      setHeader l fresh.slot (fresh.grown piece.seq chunk piece.now).header (b.openBlock, held₂) =
        .ok () (b.openBlock, held₃) ∧
      Holds l held₃ (b.cat.shelve (opened b.cat slot piece chunk)) := by
  have start : (Bytes.ofU32 piece.initialSeq.word).size = 4 := Bytes.size_ofU32 _
  have area := l.nine_le_capacity
  obtain ⟨held₁, inserted, holds₁⟩ := holds.insertBlock_run next .l4Payload piece.key
    (Bytes.ofU32 piece.initialSeq.word) false piece.now (by omega)
  rw [fresh_eq] at inserted holds₁
  have slot_eq : fresh.slot = slot := by rw [← fresh_eq]; rfl
  have member : fresh ∈ (b.cat.shelve fresh).items := Catalog.mem_file.mpr (.inl rfl)
  have room : fresh.header.hasRoom chunk.size l.capacity = true := by
    rw [holds₁.ordered.hasRoom_iff member framable.small, ← fresh_eq]
    exact framable.room
  have judged : (gate l).judge fresh.header piece.seq chunk.size = .ok := by
    rw [judge_eq framable (by rw [← fresh_eq]; rfl)
      (fun data => by rw [← fresh_eq] at data; cases data), if_pos room]
  obtain ⟨held₂, held₃, offered, headed, holds₃⟩ := offer_run
    (b := ⟨b.openBlock, b.cat.shelve fresh⟩) holds₁ framable member judged room b.openBlock
  have filed : (b.cat.shelve fresh).append fresh piece.seq chunk piece.now =
      b.cat.shelve (opened b.cat slot piece chunk) := by
    rw [opened, fresh_eq]
    exact Catalog.recast_shelve holds.ordered (by rw [slot_eq, next]) _ _
  rw [filed] at holds₃
  exact ⟨held₁, held₂, held₃, inserted, holds₁.header_run member, offered, headed, holds₃⟩

theorem storeInNewBlock_full (holds : Holds l held b.cat) (none_left : b.cat.nextSlot? l = none)
    (own : Option Ref) :
    storeInNewBlock l piece chunk (own, held) = .ok ⟨chunk.size, .dropped⟩ (own, held) := by
  have full := Hold.unlessFull_full (holds.insertBlock_full none_left .l4Payload piece.key
    (Bytes.ofU32 piece.initialSeq.word) false piece.now)
  rw [storeInNewBlock, Work.bind_ok (HoldWith.onStore_ok full)]
  rfl

theorem storeInNewBlock_run (holds : Holds l held b.cat) (framable : Framable l chunk) :
    ∃ held', storeInNewBlock l piece chunk (b.openBlock, held) =
        .ok (b.storeNew l piece chunk).1 ((b.storeNew l piece chunk).2.openBlock, held') ∧
      Holds l held' (b.storeNew l piece chunk).2.cat := by
  rw [Bench.storeNew]
  cases next : b.cat.nextSlot? l with
  | none => exact ⟨held, storeInNewBlock_full holds next b.openBlock, holds⟩
  | some slot =>
    generalize fresh_eq : Item.fresh b.cat slot .l4Payload piece.key
      (Bytes.ofU32 piece.initialSeq.word) false piece.now = fresh
    obtain ⟨held₁, held₂, held₃, inserted, read, offered, headed, holds₃⟩ :=
      enter_run holds framable next fresh_eq
    have settled := overtakes_run (b := ⟨b.openBlock, b.cat.shelve (opened b.cat slot piece chunk)⟩)
      holds₃ piece.seq
    refine ⟨held₃, ?_, ?_⟩
    · rw [storeInNewBlock, Work.bind_ok (HoldWith.onStore_ok (Hold.unlessFull_ok inserted))]
      dsimp only
      rw [Work.bind_ok (HoldWith.onStore_ok read), Work.bind_ok offered]
      dsimp only
      rw [if_neg (by simp), Work.bind_ok headed, Work.bind_ok settled]
      split
      · rw [← fresh_eq]
        rfl
      · rfl
    · dsimp only
      split
      · exact holds₃
      · exact holds₃

theorem continueOpen_run (holds : Holds l held b.cat) (framable : Framable l chunk)
    {current : Option Item}
    (present : ∀ item, current = some item → item ∈ b.cat.items ∧ item.header.isComplete = false) :
    ∃ held', continueOpen l piece chunk (current.map fun item => (item.slot, item.header))
        (b.openBlock, held) =
        .ok ((b.continueOpen? l piece chunk current).map Prod.fst)
          (((b.continueOpen? l piece chunk current).elim b Prod.snd).openBlock, held') ∧
      Holds l held' ((b.continueOpen? l piece chunk current).elim b Prod.snd).cat := by
  cases current with
  | none => exact ⟨held, rfl, holds⟩
  | some item =>
    obtain ⟨member, writable⟩ := present item rfl
    rw [Option.map_some, continueOpen, Bench.continueOpen?]
    by_cases apart : (item.header.hasData && item.header.endSeq != piece.seq) = true
    · rw [if_pos apart, if_pos apart]
      exact ⟨held, rfl, holds⟩
    · have follows (data : item.header.hasData = true) : item.header.endSeq = piece.seq := by
        simpa [data] using apart
      have judged := judge_eq framable writable follows
      dsimp only
      rw [if_neg apart, if_neg apart]
      by_cases room : item.header.hasRoom chunk.size l.capacity = true
      · rw [if_pos room] at judged
        obtain ⟨held₁, held₂, offered, headed, holds₂⟩ := offer_run holds framable member judged room
          b.openBlock
        refine ⟨held₂, ?_, ?_⟩
        · rw [Work.bind_ok offered, if_pos room]
          dsimp only
          rw [Work.bind_ok headed]
          rfl
        · rw [if_pos room]
          exact holds₂
      · rw [if_neg room] at judged
        have offered : offer l item.slot item.header piece chunk (b.openBlock, held) = _ :=
          offer_full judged b.openBlock held
        obtain ⟨held₁, closed, holds₁⟩ := holds.complete_run member
        have headed : setHeader l item.slot item.header.close (b.openBlock, held) =
            .ok () (b.openBlock, held₁) := HoldWith.onStore_ok closed
        obtain ⟨held₂, stored, holds₂⟩ := storeInNewBlock_run (b := ⟨none, b.cat.complete item⟩) holds₁ framable
        refine ⟨held₂, ?_, ?_⟩
        · rw [Work.bind_ok offered, if_neg room]
          dsimp only
          rw [Work.bind_ok headed, Work.bind_ok (HoldWith.setOwn_run _ _ _), Work.map_ok stored]
          rfl
        · rw [if_neg room]
          exact holds₂

theorem meetPredecessor_run (holds : Holds l held b.cat) (framable : Framable l chunk) :
    ∃ held', meetPredecessor l idle piece chunk (b.openBlock, held) =
        .ok ((b.meetPredecessor? l idle piece chunk).map Prod.fst)
          (((b.meetPredecessor? l idle piece chunk).elim b Prod.snd).openBlock, held') ∧
      Holds l held' ((b.meetPredecessor? l idle piece chunk).elim b Prod.snd).cat := by
  have searched := holds.predecessor_run piece.flow piece.side piece.seq
  rw [meetPredecessor, Work.bind_ok (HoldWith.onStore_ok searched), Bench.meetPredecessor?]
  change ∃ held', _ ∧ _
  rw [show FlowKey.pack piece.flow piece.side piece.seq = piece.key from rfl]
  cases found : b.cat.predecessor? piece.key with
  | none => exact ⟨held, rfl, holds⟩
  | some item =>
    have member := (holds.ordered.sorted.predecessor?_spec found).1
    simp only [Option.map_some]
    by_cases covered : Seq.inRange piece.seq item.header.base item.header.endSeq = true
    · rw [if_pos covered, if_pos covered]
      exact ⟨held, rfl, holds⟩
    · rw [if_neg covered, if_neg covered]
      by_cases takes : Bench.takes l idle piece chunk item = true
      · rw [if_pos takes]
        have fits := takes
        rw [Bench.takes, Bool.and_eq_true, Bool.and_eq_true, Bool.and_eq_true, Bool.not_eq_true',
          decide_eq_true_eq] at fits
        obtain ⟨⟨⟨stop, writable⟩, _⟩, room⟩ := fits
        have judged := judge_eq framable writable fun _ => stop
        rw [if_pos room] at judged
        obtain ⟨held₁, held₂, offered, headed, holds₂⟩ := offer_run holds framable member judged room
          b.openBlock
        refine ⟨held₂, ?_, holds₂⟩
        rw [Bench.takes] at takes
        rw [if_pos takes, Work.bind_ok offered]
        dsimp only
        rw [if_pos rfl, Work.bind_ok headed, Work.bind_ok (HoldWith.own_run _ _)]
        rfl
      · rw [if_neg takes]
        rw [Bench.takes] at takes
        rw [if_neg takes]
        exact ⟨held, rfl, holds⟩

theorem size_part {data : ByteArray} {offset : Nat} :
    (b.part l piece data offset).size = b.pieceLength l piece (data.size - offset) := by
  have limit : b.pieceLength l piece (data.size - offset) ≤ data.size - offset := by
    rw [Bench.pieceLength]
    split <;> omega
  rw [Bench.part, Bytes.size_slice]
  omega

theorem part_framable (ordered : b.cat.Ordered l) {data : ByteArray} {offset : Nat}
    (inside : offset < data.size) : Framable l (b.part l piece data offset) := by
  have area := l.nine_le_capacity
  have fits : (gate l).maxSegmentLen = l.capacity - 8 := rfl
  constructor
  · rw [size_part, Bench.pieceLength]
    cases found : b.cat.successor? piece.key with
    | none =>
      dsimp only
      omega
    | some next =>
      have apart := (ordered.sorted.successor?_spec found).1
      rw [Piece.key, FlowKey.seq_pack] at apart
      have := Seq.distance_pos apart.symm
      dsimp only
      omega
  · rw [size_part, Bench.pieceLength]
    split <;> omega

def settle (l : Layout) (idle : Micros) (piece : Piece) (part : ByteArray)
    (current : Option (UInt32 × Block.Header)) : Placing Placement := do
  match ← continueOpen l piece part current with
  | some placed => return placed
  | none =>
    match ← meetPredecessor l idle piece part with
    | some placed => return placed
    | none => storeInNewBlock l piece part

theorem settle_run (holds : Holds l held b.cat) (framable : Framable l chunk) {current : Option Item}
    (present : ∀ item, current = some item → item ∈ b.cat.items ∧ item.header.isComplete = false) :
    ∃ held', settle l idle piece chunk (current.map fun item => (item.slot, item.header))
        (b.openBlock, held) =
      .ok (((b.continueOpen? l piece chunk current).or (b.meetPredecessor? l idle piece chunk)).getD
          (b.storeNew l piece chunk)).1
        ((((b.continueOpen? l piece chunk current).or (b.meetPredecessor? l idle piece chunk)).getD
          (b.storeNew l piece chunk)).2.openBlock, held') ∧
      Holds l held' (((b.continueOpen? l piece chunk current).or
          (b.meetPredecessor? l idle piece chunk)).getD (b.storeNew l piece chunk)).2.cat := by
  obtain ⟨held₂, continued, holds₂⟩ := continueOpen_run holds framable present
  rw [settle, Work.bind_ok continued]
  cases first : b.continueOpen? l piece chunk current with
  | some placed =>
    rw [first] at holds₂
    exact ⟨held₂, rfl, holds₂⟩
  | none =>
    rw [first] at holds₂
    obtain ⟨held₃, met, holds₃⟩ := meetPredecessor_run (b := b) holds₂ framable
    dsimp only [Option.map_none, Option.elim_none, Option.none_or]
    rw [Work.bind_ok met]
    cases second : b.meetPredecessor? l idle piece chunk with
    | some placed =>
      rw [second] at holds₃
      exact ⟨held₃, rfl, holds₃⟩
    | none =>
      rw [second] at holds₃
      exact storeInNewBlock_run (b := b) holds₃ framable

theorem placePiece_run (holds : Holds l held b.cat) {data : ByteArray} {offset : Nat}
    (inside : offset < data.size) :
    ∃ held', placePiece l idle piece data offset (b.openBlock, held) =
        .ok (b.place l idle piece data offset).1
          ((b.place l idle piece data offset).2.openBlock, held') ∧
      Holds l held' (b.place l idle piece data offset).2.cat := by
  obtain ⟨held₁, reopened, holds₁, _⟩ := reopen_run holds piece.now
  rw [placePiece, Work.bind_ok reopened, Bench.place]
  have present : ∀ item, b.writable? idle piece.now = some item →
      item ∈ (b.reopen idle piece.now).cat.items ∧ item.header.isComplete = false := fun item found =>
    (Bench.located_reopen found).imp_left Bench.mem_of_located
  generalize b.writable? idle piece.now = current at present ⊢
  generalize b.reopen idle piece.now = b at holds₁ present ⊢
  have framable := @part_framable _ _ piece holds₁.ordered _ _ inside
  have searched : successorStart l piece.flow piece.side piece.seq held₁ =
      .ok (b.cat.successor? piece.key) held₁ :=
    holds₁.successorStart_run piece.flow piece.side piece.seq
  obtain ⟨held', ran, holds'⟩ := @settle_run l idle _ piece _ held₁ holds₁ framable _ present
  refine ⟨held', ?_, holds'⟩
  rw [Work.bind_ok (HoldWith.onStore_ok searched), ← ran, Bench.part, Bench.pieceLength]
  cases b.cat.successor? piece.key <;> rfl

theorem placeFrom_run (holds : Holds l held b.cat) (data : ByteArray) (offset : Nat)
    (stored : Option Outcome) (duplicate : Bool) :
    ∃ held', placeFrom l idle piece data offset stored duplicate (b.openBlock, held) =
        .ok (b.placeAll l idle piece data offset stored duplicate).1
          ((b.placeAll l idle piece data offset stored duplicate).2.openBlock, held') ∧
      Holds l held' (b.placeAll l idle piece data offset stored duplicate).2.cat := by
  fun_induction Bench.placeAll l idle b piece data offset stored duplicate generalizing held with
  | case1 b piece offset stored duplicate rest placed b' taken dropped =>
    obtain ⟨held₁, ran, holds₁⟩ := placePiece_run holds rest
    rw [taken] at ran holds₁
    refine ⟨held₁, ?_, holds₁⟩
    rw [placeFrom, dif_pos rest, Work.bind_ok ran]
    simp only [if_pos dropped]
    rfl
  | case2 b piece offset stored duplicate rest placed b' taken kept duplicate' stored' progress =>
    rename_i ih
    obtain ⟨held₁, ran, holds₁⟩ := placePiece_run holds rest
    rw [taken] at ran holds₁
    obtain ⟨held₂, others, holds₂⟩ := ih holds₁
    refine ⟨held₂, ?_, holds₂⟩
    rw [placeFrom, dif_pos rest, Work.bind_ok ran]
    simp only [if_neg kept, dif_pos progress]
    exact others
  | case3 b piece offset stored duplicate rest placed b' taken kept duplicate' stored' =>
    rename_i stuck
    obtain ⟨held₁, ran, holds₁⟩ := placePiece_run holds rest
    rw [taken] at ran holds₁
    refine ⟨held₁, ?_, holds₁⟩
    rw [placeFrom, dif_pos rest, Work.bind_ok ran]
    simp only [if_neg kept, dif_neg stuck]
    rfl
  | case4 b piece offset stored duplicate done =>
    refine ⟨held, ?_, holds⟩
    rw [placeFrom, dif_neg done]
    rfl

end Placing

end Reassembly.Writing
