import Reassembly.Proofs.Growth

/-!
A whole segment. Its pieces follow one another, so what is stored of it are its first bytes, each at its
own position, and all of them unless the store is full; the marker that may come before them holds no
stream bytes.
-/

namespace Reassembly

/-- A frame holds bytes of `data`, which starts at `base`, in their places. -/
def Block.Frame.CutFrom (base : Seq) (data : ByteArray) (f : Block.Frame) : Prop :=
  ∃ place, place + f.data.size ≤ data.size ∧ f.start = base.advance place ∧
    f.data = Bytes.slice data place f.data.size

theorem Block.Frame.CutFrom.trans {base : Seq} {data : ByteArray} {f g : Block.Frame} (outer : f.CutFrom base data)
    (inner : g.CutFrom f.start f.data) : g.CutFrom base data := by
  obtain ⟨place, fits, start, bytes⟩ := outer
  obtain ⟨step, small, here, cut⟩ := inner
  refine ⟨place + step, by omega, by rw [here, start, Seq.advance_advance], ?_⟩
  calc g.data
    _ = Bytes.slice f.data step g.data.size := cut
    _ = Bytes.slice (Bytes.slice data place f.data.size) step g.data.size :=
      congrArg (fun whole => Bytes.slice whole step g.data.size) bytes
    _ = Bytes.slice data (place + step) g.data.size := by
      rw [Bytes.slice, Bytes.slice, Bytes.slice, ByteArray.extract_extract]
      congr 1
      omega

namespace Writing

open Store

theorem Piece.seq_advance {piece : Piece} {base : Seq} {offset : Nat}
    (here : piece.seq = base.advance offset) (count : Nat) :
    (piece.advance count).seq = base.advance (offset + count) := by
  rw [Piece.advance, here, Seq.advance_advance]

namespace Bench

variable {l : Layout} {idle : Micros} {b b' : Bench} {piece : Piece} {chunk : ByteArray}

theorem Enters.covers_iff (enters : Enters piece chunk b b') (position : Seq) :
    Covers b'.cat.items piece.lane position ↔ Covers b.cat.items piece.lane position ∨
      ∃ step, step < chunk.size ∧ piece.seq.advance step = position := by
  constructor
  · intro held
    rcases enters.grows.covers_or held with old | ⟨f, rfl, spans⟩
    · exact .inl old
    · exact .inr spans
  · rintro (old | spans)
    · exact enters.grows.covers old
    · obtain ⟨item, member, inLane, payload, present⟩ := enters.there
      exact ⟨item, member, inLane, payload, _, present, spans⟩

theorem Fit.reopen_grows {lane : Nat} (fit : b.Fit l lane) (now : Micros)
    (fresh : Block.Frame → Prop) :
    Grows lane fresh b.cat.items (b.reopen idle now).cat.items := by
  rw [Bench.reopen]
  split
  · exact .refl _ _ _
  · next item found =>
    split
    · exact .refl _ _ _
    · split
      · exact .complete fit.ordered (mem_of_located found) (fit.aimed _ (ref_of_located found))
      · exact .refl _ _ _

theorem Fit.reopen_covers {lane : Nat} (fit : b.Fit l lane) (now : Micros) (position : Seq) :
    Covers (b.reopen idle now).cat.items lane position ↔ Covers b.cat.items lane position := by
  have grows := (@Writing.Bench.Fit.reopen_grows _ idle) fit now fun _ => False
  refine ⟨fun held => ?_, grows.covers⟩
  rcases grows.covers_or held with old | ⟨_, absurd, _⟩
  · exact old
  · exact absurd.elim

/-- The first `count` bytes of `data` from `offset` on are stored. -/
structure Spread (l : Layout) (lane : Nat) (base : Seq) (data : ByteArray) (offset : Nat)
    (b b' : Bench) (count : Nat) : Prop where
  inside : count ≤ data.size - offset
  whole : count < data.size - offset → b'.cat.nextSlot? l = none
  fit : b'.Fit l lane
  grows : Grows lane (·.CutFrom base data) b.cat.items b'.cat.items
  covers : ∀ position, Covers b'.cat.items lane position ↔ Covers b.cat.items lane position ∨
    ∃ step, step < count ∧ base.advance (offset + step) = position

theorem Spread.nothing {lane : Nat} (fit : b.Fit l lane) (base : Seq) {data : ByteArray} {offset : Nat}
    (done : data.size ≤ offset) : Spread l lane base data offset b b 0 where
  inside := Nat.zero_le _
  whole := by omega
  fit := fit
  grows := .refl _ _ _
  covers := fun position => ⟨.inl, fun held => held.elim id fun ⟨_, small, _⟩ =>
    absurd small (Nat.not_lt_zero _)⟩

theorem Fit.place_spec {base : Seq} {data : ByteArray} {offset : Nat} (fit : b.Fit l piece.lane)
    (inside : offset < data.size) (here : piece.seq = base.advance offset) :
    let placed := b.place l idle piece data offset
    placed.2.Fit l piece.lane ∧
    Grows piece.lane (·.CutFrom base data) b.cat.items placed.2.cat.items ∧
    (placed.1.outcome = .dropped → placed.2.cat.nextSlot? l = none ∧
      ∀ position, Covers placed.2.cat.items piece.lane position ↔
        Covers b.cat.items piece.lane position) ∧
    (placed.1.outcome ≠ .dropped →
      0 < placed.1.consumed ∧ placed.1.consumed ≤ data.size - offset ∧
      ∀ position, Covers placed.2.cat.items piece.lane position ↔
        Covers b.cat.items piece.lane position ∨
          ∃ step, step < placed.1.consumed ∧ piece.seq.advance step = position) := by
  intro placed
  have refit := (@Writing.Bench.Fit.reopen _ idle) fit piece.now
  have looked := (@Writing.Bench.Fit.reopen_grows _ idle) fit piece.now (·.CutFrom base data)
  have same := (@Writing.Bench.Fit.reopen_covers _ idle) fit piece.now
  have step : Placed l idle (b.reopen idle piece.now) piece
      ((b.reopen idle piece.now).part l piece data offset) placed.1 placed.2 :=
    place_placed fit data offset
  have framable := (@Writing.Placing.part_framable _ _ piece) refit.ordered inside
  have size := (@Writing.Placing.size_part l (b.reopen idle piece.now) piece data offset)
  have limit : (b.reopen idle piece.now).pieceLength l piece (data.size - offset) ≤
      data.size - offset := by
    rw [pieceLength]
    split <;> omega
  have cut : Block.Frame.CutFrom base data
      ⟨piece.seq, (b.reopen idle piece.now).part l piece data offset⟩ := by
    refine ⟨offset, ?_, here, ?_⟩
    · rw [size]
      omega
    · dsimp only
      rw [size]
      rfl
  refine ⟨step.fit refit framable, ?_⟩
  rcases step.spec refit framable with ⟨dropped, full, grows⟩ |
    ⟨duplicate, unchanged, some, le, held⟩ | ⟨stored, whole, enters⟩
  · refine ⟨looked.trans (grows.mono fun _ => False.elim), fun _ => ⟨full, fun position => ?_⟩,
      fun kept => absurd dropped kept⟩
    rw [← same position]
    refine ⟨fun covered => ?_, grows.covers⟩
    rcases grows.covers_or covered with old | ⟨_, none, _⟩
    · exact old
    · exact none.elim
  · refine ⟨unchanged ▸ looked, fun dropped => ?_, fun _ => ⟨some, by omega, fun position => ?_⟩⟩
    · rw [duplicate] at dropped
      cases dropped
    · rw [unchanged, same position]
      refine ⟨.inl, fun covered => covered.elim id ?_⟩
      rintro ⟨step, small, rfl⟩
      exact (same _).mp (held step small)
  · refine ⟨looked.trans (enters.grows.mono fun f is => is ▸ cut), fun dropped => ?_,
      fun _ => ⟨?_, by omega, fun position => ?_⟩⟩
    · rw [dropped] at stored
      cases stored
    · rw [whole]
      exact framable.some
    · rw [enters.covers_iff, same position, whole]

theorem Fit.place_progress (fit : b.Fit l piece.lane) {data : ByteArray} {offset : Nat}
    (inside : offset < data.size) :
    ((b.place l idle piece data offset).1.outcome = .dropped →
      (b.place l idle piece data offset).2.cat.nextSlot? l = none) ∧
    ((b.place l idle piece data offset).1.outcome ≠ .dropped →
      0 < (b.place l idle piece data offset).1.consumed ∧
        (b.place l idle piece data offset).1.consumed ≤ data.size - offset) := by
  obtain ⟨origin, here⟩ := piece.seq.exists_advance offset
  obtain ⟨_, _, full, further⟩ := @Fit.place_spec l idle b piece origin data offset fit inside here
  exact ⟨fun dropped => (full dropped).1, fun kept => ⟨(further kept).1, (further kept).2.1⟩⟩

/-- A piece that is not dropped takes bytes of its segment, so the next one is a further one. -/
theorem Fit.consumed_pos (fit : b.Fit l piece.lane) {data : ByteArray} {offset : Nat}
    (inside : offset < data.size) {placed : Placement}
    (taken : b.place l idle piece data offset = (placed, b')) (kept : placed.outcome ≠ .dropped) :
    0 < placed.consumed := by
  have spec := @Fit.place_progress l idle b piece fit data offset inside
  rw [taken] at spec
  exact (spec.2 kept).1

theorem Fit.placeAll_spec {base : Seq} {data : ByteArray} {offset : Nat} (fit : b.Fit l piece.lane)
    (here : piece.seq = base.advance offset) (stored : Option Outcome) (duplicate : Bool) :
    ∃ count, Spread l piece.lane base data offset b
      (b.placeAll l idle piece data offset stored duplicate).2 count := by
  fun_induction Bench.placeAll l idle b piece data offset stored duplicate with
  | case1 b piece offset stored duplicate rest placed b' taken dropped =>
    have spec := (@Writing.Bench.Fit.place_spec _ idle) fit rest here
    rw [taken] at spec
    dsimp only at spec
    obtain ⟨refit, grows, full, _⟩ := spec
    refine ⟨0, Nat.zero_le _, fun _ => (full dropped).1, refit, grows, fun position => ?_⟩
    rw [(full dropped).2 position]
    exact ⟨.inl, fun held => held.elim id fun held => absurd held.choose_spec.1 (Nat.not_lt_zero _)⟩
  | case2 b piece offset stored duplicate rest placed b' taken kept duplicate' stored' progress =>
    rename_i ih
    have spec := (@Writing.Bench.Fit.place_spec _ idle) fit rest here
    rw [taken] at spec
    dsimp only at spec
    obtain ⟨refit, grows, _, advanced⟩ := spec
    obtain ⟨_, inside, covers⟩ := advanced kept
    obtain ⟨count, later⟩ := ih refit (Piece.seq_advance here _)
    have lane : (piece.advance placed.consumed).lane = piece.lane := rfl
    rw [lane] at later
    have fits := later.inside
    refine ⟨placed.consumed + count, by omega, fun short => later.whole (by omega), later.fit,
      grows.trans later.grows, fun position => ?_⟩
    rw [later.covers, covers]
    constructor
    · rintro ((old | ⟨step, small, rfl⟩) | ⟨step, small, rfl⟩)
      · exact .inl old
      · exact .inr ⟨step, by omega, by rw [here, Seq.advance_advance]⟩
      · exact .inr ⟨placed.consumed + step, by omega, by rw [Nat.add_assoc]⟩
    · rintro (old | ⟨step, small, rfl⟩)
      · exact .inl (.inl old)
      · by_cases early : step < placed.consumed
        · exact .inl (.inr ⟨step, early, by rw [here, Seq.advance_advance]⟩)
        · refine .inr ⟨step - placed.consumed, by omega, ?_⟩
          congr 1
          omega
  | case3 b piece offset stored duplicate rest placed b' taken kept duplicate' stored' =>
    rename_i stuck
    exact absurd (fit.consumed_pos rest taken kept) stuck
  | case4 b piece offset stored duplicate done =>
    exact ⟨0, .nothing fit base (Nat.not_lt.mp done)⟩

end Bench

end Writing

open Store in
def WriterFlows.Aimed (writers : WriterFlows) : Prop :=
  ∀ (flow : FlowId) (writer : WriterFlow) (side : Side) (ref : Ref), writers[flow]? = some writer →
    (writer.sides.get side).openBlock = some ref → ref.key.lane = FlowKey.laneOf flow side

namespace WriterFlows

def Opens (kind : FlowId → Side → Ref → Prop) (writers : WriterFlows) : Prop :=
  ∀ (flow : FlowId) (writer : WriterFlow) (side : Side) (ref : Ref), writers[flow]? = some writer →
    (writer.sides.get side).openBlock = some ref → kind flow side ref

section Opens

variable {kind weaker : FlowId → Side → Ref → Prop} {writers : WriterFlows}

theorem Opens.empty : Opens kind ∅ := by
  intro flow writer side ref known
  rw [Std.ExtTreeMap.getElem?_empty] at known
  cases known

theorem Opens.mono (opens : writers.Opens kind)
    (less : ∀ flow side ref, kind flow side ref → weaker flow side ref) :
    writers.Opens weaker :=
  fun flow writer side ref known current => less flow side ref (opens flow writer side ref known current)

theorem Opens.insert (opens : writers.Opens kind) {flow : FlowId} {writer : WriterFlow}
    (own : ∀ side ref, (writer.sides.get side).openBlock = some ref → kind flow side ref) :
    Opens kind (writers.insert flow writer) := by
  intro other found side ref known current
  rw [Std.ExtTreeMap.getElem?_insert] at known
  split at known
  · next same =>
    rw [Std.LawfulEqCmp.compare_eq_iff_eq] at same
    obtain rfl := Option.some.inj known
    exact same ▸ own side ref current
  · exact opens other found side ref known current

theorem Opens.erase (opens : writers.Opens kind) (flow : FlowId) : Opens kind (writers.erase flow) := by
  intro other found side ref known current
  rw [Std.ExtTreeMap.getElem?_erase] at known
  split at known
  · cases known
  · exact opens other found side ref known current

theorem mem_of_keepFresh {writers : WriterFlows} {now timeout : Micros} {flow : FlowId}
    {writer : WriterFlow} (kept : (Sweep.keepFresh writers now timeout)[flow]? = some writer) :
    writers[flow]? = some writer := by
  rw [Sweep.keepFresh, Std.ExtTreeMap.getElem?_filter'] at kept
  exact (Option.filter_eq_some_iff.mp kept).1

theorem Opens.keepFresh (opens : writers.Opens kind) (now timeout : Micros) :
    Opens kind (Sweep.keepFresh writers now timeout) := by
  intro other found side ref known current
  exact opens other found side ref (mem_of_keepFresh known) current

end Opens

theorem Aimed.empty : Aimed ∅ := Opens.empty

theorem Aimed.insert {writers : WriterFlows} (aimed : writers.Aimed) {flow : FlowId}
    {writer : WriterFlow} (own : ∀ side ref, (writer.sides.get side).openBlock = some ref →
      ref.key.lane = FlowKey.laneOf flow side) : Aimed (writers.insert flow writer) :=
  Opens.insert aimed own

theorem Aimed.erase {writers : WriterFlows} (aimed : writers.Aimed) (flow : FlowId) :
    Aimed (writers.erase flow) :=
  Opens.erase aimed flow

theorem Aimed.keepFresh {writers : WriterFlows} (aimed : writers.Aimed) (now timeout : Micros) :
    Aimed (Sweep.keepFresh writers now timeout) :=
  Opens.keepFresh aimed now timeout

end WriterFlows

end Reassembly
