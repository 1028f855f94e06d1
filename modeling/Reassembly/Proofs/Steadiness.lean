import Reassembly.Proofs.Disjointness
import Reassembly.Proofs.Outcomes

/-!
A write while nothing times out. If the blocks of a side lie within half a turn of one another, its open
block is the one that starts last, and it stays so: a piece that does not go into the block before it
opens a block, and that becomes the open one just if it lies behind all others. So the open block is never
continued over another, and the blocks of the side keep apart.
-/

namespace Reassembly

namespace Seq

variable {base a b : Seq}

theorem distance_of_le (le : distance base a ≤ distance base b) :
    distance a b = distance base b - distance base a := by
  have whole := distance_trans base a b
  have small := distance_lt a b
  have bound := distance_lt base b
  rw [circle] at whole
  omega

theorem distance_of_lt (lt : distance base b < distance base a) :
    distance a b + distance base a = circle + distance base b := by
  have whole := distance_trans base a b
  have small := distance_lt a b
  have bound := distance_lt base a
  rw [circle] at whole ⊢
  omega

theorem before_eq_false_iff (first : distance base a < halfTurn) (second : distance base b < halfTurn) :
    before a b = false ↔ distance base b ≤ distance base a := by
  rw [← Bool.not_eq_true, before_iff, Nat.not_le]
  rw [halfTurn] at *
  constructor
  · intro ahead
    by_contra more
    have turned := distance_of_lt (Nat.lt_of_not_le more)
    rw [circle] at turned
    omega
  · intro le
    rw [distance_of_le le]
    omega

theorem distance_advance_within {count : Nat} (small : distance base a + count < halfTurn) :
    distance base (a.advance count) = distance base a + count := by
  rw [halfTurn] at small
  rw [distance_advance_right, circle]
  omega

theorem Arc.Clear.sides {x y : Arc} (clear : x.Clear y) :
    distance base x.start + x.length ≤ distance base y.start ∨
      distance base y.start + y.length ≤ distance base x.start := by
  obtain ⟨ahead, behind⟩ := clear
  by_cases le : distance base x.start ≤ distance base y.start
  · rw [distance_of_le le] at ahead
    exact .inl (by omega)
  · rw [@distance_of_le base _ _ (by omega)] at behind
    exact .inr (by omega)

end Seq

namespace Writing

open Store

namespace Bench

variable {l : Layout} {idle : Micros} {b b' : Bench} {piece : Piece} {chunk : ByteArray} {base : Seq}
  {lane : Nat} {now : Micros}

/-- If any block of the lane holds stream bytes, the open block can be written, and no other starts
farther from `base`. -/
def Leads (base : Seq) (lane : Nat) (b : Bench) : Prop :=
  ∀ item ∈ b.cat.items, item.lane = lane → item.isPayload = true →
    ∃ current, b.located = some current ∧ current.header.isComplete = false ∧ current.lane = lane ∧
      current.isPayload = true ∧ Seq.distance base item.start ≤ Seq.distance base current.start

def Within (base : Seq) (lane : Nat) (cat : Catalog) : Prop :=
  ∀ item ∈ cat.items, item.lane = lane → item.isPayload = true →
    Seq.distance base item.start + item.arc.length < Seq.halfTurn

/-- A store whose blocks are apart, of which none is idle and as few were stored as are there. -/
structure Calm (l : Layout) (idle now : Micros) (cat : Catalog) : Prop where
  spaced : Spaced cat.items
  numbered : cat.Numbered
  counted : cat.nextGeneration.toNat ≤ cat.items.length
  busy : ∀ item ∈ cat.items, elapsed now item.header.lastUpdate ≤ idle

theorem Calm.not_expired {cat : Catalog} (calm : Calm l idle now cat) {item : Item}
    (member : item ∈ cat.items) : item.header.expired now idle = false := by
  have busy := calm.busy item member
  rw [Block.Header.expired, decide_eq_false (UInt64.not_lt.mpr busy), Bool.and_false]

theorem Calm.edits {cat cat' : Catalog} {count : Nat} (calm : Calm l idle now cat) (ordered : cat.Ordered l)
    (spaced : Spaced cat'.items) (edits : Edits l now cat count cat') (few : count ≤ 1) :
    Calm l idle now cat' := by
  have small := ordered.length_le
  have limit := l.maxBlocks.toNat_lt
  have counted := calm.counted
  refine ⟨spaced, calm.numbered.edits edits (by rw [UInt64.size]; omega), ?_, ?_⟩
  · rw [edits.length, edits.nextGeneration, UInt64.toNat_add, UInt64.toNat_ofNat']
    omega
  · refine (@Store.Edits.forall_lastUpdate l now cat cat' count edits (elapsed now · ≤ idle)) ?_ calm.busy
    rw [elapsed, if_pos (UInt64.le_refl _), UInt64.sub_self]
    exact UInt64.zero_le

theorem Fit.arc_start (fit : b.Fit l lane) {item : Item} (member : item ∈ b.cat.items)
    (payload : item.isPayload = true) : item.arc.start = item.start ∧ 0 < item.arc.length :=
  (fit.sound item member).arc_spec payload (fit.ordered.fits item member)

theorem Fit.distance_endSeq (fit : b.Fit l lane) (within : Within base lane b.cat) {item : Item}
    (member : item ∈ b.cat.items) (inLane : item.lane = lane) (payload : item.isPayload = true) :
    Seq.distance base item.header.endSeq = Seq.distance base item.start + item.arc.length := by
  rw [← Seq.distance_advance_within (within item member inLane payload),
    ← (fit.arc_start member payload).1]
  exact congrArg _ (Seq.advance_distance _ _).symm

theorem reopen_calm (calm : Calm l idle now b.cat) :
    (b.reopen idle now).cat = b.cat ∧
      ((b.reopen idle now).openBlock = none ∧ (∀ item, b.located = some item → item.header.isComplete = true) ∨
        ∃ item, b.writable? idle now = some item ∧ b.reopen idle now = b) := by
  rw [reopen]
  cases found : b.located with
  | none => exact ⟨rfl, .inl ⟨rfl, fun _ same => absurd same.symm (Option.some_ne_none _)⟩⟩
  | some item =>
    have fresh := calm.not_expired (mem_of_located found)
    dsimp only
    by_cases complete : item.header.isComplete = true
    · rw [if_pos complete]
      exact ⟨rfl, .inl ⟨rfl, fun other same => Option.some.inj same ▸ complete⟩⟩
    · rw [if_neg complete, fresh, if_neg Bool.false_ne_true]
      refine ⟨rfl, .inr ⟨item, ?_, rfl⟩⟩
      rw [Bool.not_eq_true] at complete
      rw [writable?, found, Option.filter_some, complete, fresh]
      rfl

/-- A bench in order for a side, whose open block leads. -/
structure Steady (l : Layout) (idle now : Micros) (base : Seq) (lane : Nat) (b : Bench) : Prop where
  fit : b.Fit l lane
  calm : Calm l idle now b.cat
  within : Within base lane b.cat
  leads : Leads base lane b

theorem Steady.reopen (steady : b.Steady l idle now base lane) :
    (b.reopen idle now).Steady l idle now base lane := by
  have refit := (@Writing.Bench.Fit.reopen _ idle) steady.fit now
  obtain ⟨same, ⟨_, closed⟩ | ⟨item, _, whole⟩⟩ := reopen_calm steady.calm
  · refine ⟨refit, same ▸ steady.calm, same ▸ steady.within, fun item member inLane payload => ?_⟩
    rw [same] at member
    obtain ⟨current, found, writable, _⟩ := steady.leads item member inLane payload
    rw [closed current found] at writable
    cases writable
  · rw [whole]
    exact steady

theorem Steady.last (steady : b.Steady l idle now base lane) {current item : Item}
    (writable : b.writable? idle now = some current) (member : item ∈ b.cat.items)
    (inLane : item.lane = lane) (payload : item.isPayload = true) :
    Seq.distance base item.start ≤ Seq.distance base current.start := by
  obtain ⟨other, found, _, _, _, le⟩ := steady.leads item member inLane payload
  obtain rfl := Option.some.inj ((writable?_spec writable).1.symm.trans found)
  exact le

theorem Steady.vacant (steady : b.Steady l idle piece.now base piece.lane) {current : Item}
    (writable : b.writable? idle piece.now = some current) (stop : current.header.endSeq = piece.seq) :
    b.Vacant piece := by
  intro other known inLane payload start
  have member := mem_of_writable? writable
  have stream := steady.fit.isPayload member (writable?_spec writable).2.1
  have last := steady.last writable known inLane payload
  have behind := steady.fit.distance_endSeq steady.within member (steady.fit.lane_eq writable) stream
  have some := (steady.fit.arc_start member stream).2
  rw [start] at last
  rw [stop] at behind
  omega

theorem located_of_ref {cat : Catalog} (numbered : cat.Numbered) {item : Item} (member : item ∈ cat.items)
    {openBlock : Option Ref} (names : openBlock = some item.ref) :
    (⟨openBlock, cat⟩ : Bench).located = some item := by
  rw [located, names, Option.bind_some]
  exact numbered.refs.find?_ref member

theorem Leads.append (leads : Leads base lane b) (ordered : b.cat.Ordered l) {item : Item}
    (member : item ∈ b.cat.items) (inLane : item.lane = lane) (writable : item.header.isComplete = false)
    (payload : item.isPayload = true) (seq : Seq) (time : Micros)
    (numbered : (b.cat.append item seq chunk time).Numbered) :
    Leads base lane ⟨b.openBlock, b.cat.append item seq chunk time⟩ := by
  have lead : ∃ current, b.located = some current ∧ current.header.isComplete = false ∧
      current.lane = lane ∧ current.isPayload = true ∧ ∀ other ∈ b.cat.items, other.lane = lane →
        other.isPayload = true → Seq.distance base other.start ≤ Seq.distance base current.start := by
    obtain ⟨current, found, writable', there, stream, _⟩ := leads item member inLane payload
    refine ⟨current, found, writable', there, stream, fun other known lane payload => ?_⟩
    obtain ⟨same, found', _, _, _, le⟩ := leads other known lane payload
    obtain rfl := Option.some.inj (found.symm.trans found')
    exact le
  obtain ⟨current, found, writable', there, stream, last⟩ := lead
  have known := mem_of_located found
  have names := ref_of_located found
  have after : ∃ current', (⟨b.openBlock, b.cat.append item seq chunk time⟩ : Bench).located =
      some current' ∧ current'.header.isComplete = false ∧ current'.entry = current.entry ∧
      current'.isPayload = true := by
    by_cases same : current.slot = item.slot
    · obtain rfl := ordered.eq_of_slot known member same
      exact ⟨current.grown seq chunk time, located_of_ref numbered
        (Catalog.mem_recast.mpr (.inl ⟨current, known, rfl, rfl⟩)) names, writable', rfl, stream⟩
    · exact ⟨current, located_of_ref numbered (Catalog.mem_recast.mpr (.inr ⟨known, same⟩)) names,
        writable', rfl, stream⟩
  obtain ⟨current', found', writable'', entry, stream'⟩ := after
  have start : current'.start = current.start := congrArg (fun e : Entry => e.ref.key.seq) entry
  have lane' : current'.lane = lane := (congrArg (fun e : Entry => e.ref.key.lane) entry).trans there
  intro other listed otherLane stream
  refine ⟨current', found', writable'', lane', stream', ?_⟩
  rw [start]
  rcases Catalog.mem_recast.mp listed with ⟨old, present, same, rfl⟩ | ⟨present, _⟩
  · obtain rfl := ordered.eq_of_slot present member same
    exact last old present otherLane payload
  · exact last other present otherLane stream

theorem Leads.of_front {cat : Catalog} (numbered : cat.Numbered) {item : Item} (member : item ∈ cat.items)
    (writable : item.header.isComplete = false) (inLane : item.lane = lane) (payload : item.isPayload = true)
    (front : ∀ other ∈ cat.items, other.lane = lane → other.isPayload = true →
      Seq.distance base other.start ≤ Seq.distance base item.start) :
    Leads base lane ⟨some item.ref, cat⟩ := fun other known there stream =>
  ⟨item, located_of_ref numbered member rfl, writable, inLane, payload, front other known there stream⟩

theorem Leads.of_behind {cat : Catalog} (leads : Leads base lane b) (numbered : cat.Numbered)
    (kept : ∀ item ∈ b.cat.items, item.lane = lane → item.isPayload = true → item ∈ cat.items)
    (known : ∀ item ∈ cat.items, item.lane = lane → item.isPayload = true → item ∈ b.cat.items ∨
      ∃ current, b.located = some current ∧ current.header.isComplete = false ∧ current.lane = lane ∧
        current.isPayload = true ∧ Seq.distance base item.start ≤ Seq.distance base current.start) :
    Leads base lane ⟨b.openBlock, cat⟩ := by
  intro item member inLane payload
  have lead : ∃ current, b.located = some current ∧ current.header.isComplete = false ∧
      current.lane = lane ∧ current.isPayload = true ∧
      Seq.distance base item.start ≤ Seq.distance base current.start := by
    rcases known item member inLane payload with old | behind
    · exact leads item old inLane payload
    · exact behind
  obtain ⟨current, found, writable, there, stream, le⟩ := lead
  exact ⟨current, located_of_ref numbered (kept current (mem_of_located found) there stream)
    (ref_of_located found), writable, there, stream, le⟩

theorem opened_front (cat : Catalog) (slot : UInt32) (piece : Piece) (framable : Placing.Framable l chunk) :
    (opened cat slot piece chunk).header.isComplete = false ∧
      (opened cat slot piece chunk).isPayload = true :=
  ⟨rfl, (opened_streams cat slot piece framable).isPayload⟩

theorem storeNew_front (free : b.openBlock = none)
    (front : ∀ item ∈ b.cat.items, item.lane = piece.lane → item.isPayload = true →
      Seq.distance base item.start ≤ Seq.distance base piece.seq)
    (framable : Placing.Framable l chunk) (kept : (b.storeNew l piece chunk).1.outcome ≠ .dropped)
    (numbered : (b.storeNew l piece chunk).2.cat.Numbered) :
    Leads base piece.lane (b.storeNew l piece chunk).2 := by
  rw [Bench.storeNew] at kept numbered ⊢
  cases next : b.cat.nextSlot? l with
  | none =>
    rw [next] at kept
    exact absurd rfl kept
  | some slot =>
    simp only [next] at numbered ⊢
    obtain ⟨writable, stream⟩ := opened_front b.cat slot piece framable
    have start := start_opened b.cat slot piece chunk
    have inLane := lane_opened b.cat slot piece chunk
    generalize opened b.cat slot piece chunk = fresh at *
    have ahead : overtakes ⟨b.openBlock, b.cat.shelve fresh⟩ piece.seq = true := by
      rw [overtakes, located, free]
      rfl
    rw [if_pos ahead] at numbered ⊢
    refine Leads.of_front numbered (Catalog.mem_file.mpr (.inl rfl)) writable inLane stream
      fun other known there payload => ?_
    rcases Catalog.mem_file.mp known with rfl | before
    · exact Nat.le_refl _
    · rw [start]
      exact front other before there payload

theorem Steady.storeNew (steady : b.Steady l idle now base piece.lane) {item : Item}
    (found : b.writable? idle now = some item) (framable : Placing.Framable l chunk)
    (reach : Seq.distance base piece.seq + chunk.size < Seq.halfTurn)
    (calm : Calm l idle now (b.storeNew l piece chunk).2.cat) :
    Leads base piece.lane (b.storeNew l piece chunk).2 := by
  rw [Bench.storeNew] at calm ⊢
  cases next : b.cat.nextSlot? l with
  | none => exact steady.leads
  | some slot =>
    simp only [next] at calm ⊢
    have unused := (steady.fit.ordered.nextSlot_spec next).2.1
    rw [← slot_opened b.cat slot piece chunk] at unused
    obtain ⟨writable, stream⟩ := opened_front b.cat slot piece framable
    have start := start_opened b.cat slot piece chunk
    have inLane := lane_opened b.cat slot piece chunk
    have arc := @arc_opened _ piece _ b.cat slot framable
    generalize opened b.cat slot piece chunk = fresh at *
    have new : fresh ∈ (b.cat.shelve fresh).items := Catalog.mem_file.mpr (.inl rfl)
    have old {item : Item} (known : item ∈ b.cat.items) : item ∈ (b.cat.shelve fresh).items :=
      Catalog.mem_file.mpr (.inr known)
    have member := mem_of_writable? found
    have there := steady.fit.lane_eq found
    have payload := steady.fit.isPayload member (writable?_spec found).2.1
    have stop := steady.fit.distance_endSeq steady.within member there payload
    have short := steady.within item member there payload
    have some_bytes := (steady.fit.arc_start member payload).2
    have names := ref_of_located (writable?_spec found).1
    have numbered : (b.cat.shelve fresh).Numbered := by
      split at calm <;> exact calm.numbered
    have spaced : Spaced (b.cat.shelve fresh).items := by
      split at calm <;> exact calm.spaced
    have ahead : overtakes ⟨b.openBlock, b.cat.shelve fresh⟩ piece.seq =
        !Seq.before piece.seq item.header.endSeq := by
      rw [overtakes, located_of_ref numbered (old member) names]
    rw [ahead]
    cases order : Seq.before piece.seq item.header.endSeq with
    | false =>
      rw [@Seq.before_eq_false_iff base _ _ (by omega) (by omega), stop] at order
      refine Leads.of_front numbered new writable inLane stream fun other known lane payload => ?_
      rcases Catalog.mem_file.mp known with rfl | before
      · exact Nat.le_refl _
      · have last := steady.last found before lane payload
        rw [start]
        omega
    | true =>
      have less : Seq.distance base piece.seq < Seq.distance base item.header.endSeq := by
        by_contra more
        rw [(@Seq.before_eq_false_iff base _ _ (by omega) (by omega)).mpr (by omega)] at order
        cases order
      have apart : fresh.slot ≠ item.slot := fun same =>
        unused (same ▸ List.mem_map_of_mem member)
      have clear := spaced fresh new item (old member) apart stream payload (inLane.trans there.symm)
      have sides := @Seq.Arc.Clear.sides base _ _ clear
      rw [arc, (steady.fit.arc_start member payload).1] at sides
      refine Leads.of_behind steady.leads numbered (fun other known _ _ => old known)
        fun other known lane payload' => ?_
      rcases Catalog.mem_file.mp known with rfl | before
      · refine .inr ⟨item, (writable?_spec found).1, (writable?_spec found).2.1, there, payload, ?_⟩
        rw [start]
        dsimp only at sides
        omega
      · exact .inl before

theorem Within.storeNew (within : Within base piece.lane b.cat) (framable : Placing.Framable l chunk)
    (reach : Seq.distance base piece.seq + chunk.size < Seq.halfTurn) :
    Within base piece.lane (b.storeNew l piece chunk).2.cat := by
  rw [Bench.storeNew]
  split
  · exact within
  · next slot next =>
    have filed : Within base piece.lane (b.cat.shelve (opened b.cat slot piece chunk)) := by
      intro item known inLane payload
      rcases Catalog.mem_file.mp known with rfl | old
      · rw [start_opened, arc_opened _ _ framable]
        exact reach
      · exact within item old inLane payload
    dsimp only
    split <;> exact filed

theorem Steady.within_append (steady : b.Steady l idle now base piece.lane) {item : Item}
    (member : item ∈ b.cat.items) (inLane : item.lane = piece.lane)
    (writable : item.header.isComplete = false) (stop : item.header.endSeq = piece.seq)
    (framable : Placing.Framable l chunk) (room : item.header.hasRoom chunk.size l.capacity = true)
    (reach : Seq.distance base piece.seq + chunk.size < Seq.halfTurn) :
    Within base piece.lane (b.cat.append item piece.seq chunk piece.now) := by
  have payload := steady.fit.isPayload member writable
  have behind := steady.fit.distance_endSeq steady.within member inLane payload
  have grown := steady.fit.arc_grown member writable stop framable room
  rw [stop] at behind
  intro other known lane stream
  rcases Catalog.mem_recast.mp known with ⟨old, present, same, rfl⟩ | ⟨present, _⟩
  · obtain rfl := steady.fit.ordered.eq_of_slot present member same
    change Seq.distance base old.start + (old.grown piece.seq chunk piece.now).arc.length < Seq.halfTurn
    rw [grown]
    dsimp only
    omega
  · exact steady.within other present lane stream

theorem Steady.place (steady : b.Steady l idle piece.now base piece.lane) {data : ByteArray} {offset : Nat}
    (inside : offset < data.size)
    (reach : Seq.distance base piece.seq + (data.size - offset) < Seq.halfTurn)
    (kept : (b.place l idle piece data offset).1.outcome ≠ .dropped) :
    (b.place l idle piece data offset).2.Steady l idle piece.now base piece.lane := by
  have again := steady.reopen
  have placed := (@Writing.Bench.place_placed l idle b piece) steady.fit data offset
  have framable := (@Writing.Placing.part_framable _ _ piece) again.fit.ordered inside
  have limited := again.fit.part_limited data offset
  have short : ((b.reopen idle piece.now).part l piece data offset).size ≤ data.size - offset := by
    rw [Placing.size_part, pieceLength]
    split <;> omega
  have state : (b.reopen idle piece.now).openBlock = none ∨
      ∃ item, (b.reopen idle piece.now).writable? idle piece.now = some item := by
    rcases (reopen_calm steady.calm).2 with ⟨none_open, _⟩ | ⟨item, found, whole⟩
    · exact .inl none_open
    · exact .inr ⟨item, whole.symm ▸ found⟩
  generalize b.place l idle piece data offset = result at placed kept ⊢
  obtain ⟨placement, b'⟩ := result
  generalize b.reopen idle piece.now = b at again placed framable limited short state
  generalize b.part l piece data offset = chunk at placed framable limited short
  dsimp only at placed kept ⊢
  have fit' := placed.fit again.fit framable
  have spaced' := placed.spaced again.fit framable limited again.calm.spaced fun _ ends =>
    again.vacant ends.choose_spec.1 ends.choose_spec.2
  obtain ⟨count, few, edits⟩ := placed.edits again.fit
  have calm' := again.calm.edits again.fit.ordered spaced' edits few
  suffices rest : Within base piece.lane b'.cat ∧ Leads base piece.lane b' from
    ⟨fit', calm', rest.1, rest.2⟩
  cases placed with
  | covered _ _ => exact ⟨again.within, again.leads⟩
  | continued current stop room =>
    have member := mem_of_writable? current
    have there := again.fit.lane_eq current
    have writable := (writable?_spec current).2.1
    have payload := again.fit.isPayload member writable
    exact ⟨again.within_append member there writable stop framable room (by omega),
      again.leads.append again.fit.ordered member there writable payload _ _ calm'.numbered⟩
  | resumed found writable stop room =>
    obtain ⟨member, there, payload, _⟩ := again.fit.ordered.sorted.predecessor?_spec found
    rw [Piece.lane_key] at there
    exact ⟨again.within_append member there writable stop framable room (by omega),
      again.leads.append again.fit.ordered member there writable payload _ _ calm'.numbered⟩
  | @replaced item current stop =>
    have member := mem_of_writable? current
    have writable := (writable?_spec current).2.1
    have there := again.fit.lane_eq current
    have payload := again.fit.isPayload member writable
    have behind := again.fit.distance_endSeq again.within member there payload
    rw [stop] at behind
    -- completing the open block moves none of the blocks
    have same {other : Item} (known : other ∈ (b.cat.complete item).items) (stream : other.isPayload = true) :
        ∃ old ∈ b.cat.items, old.start = other.start ∧ old.lane = other.lane ∧ old.isPayload = true ∧
          old.arc = other.arc := by
      rcases Catalog.mem_recast.mp known with ⟨old, present, slot, rfl⟩ | ⟨present, _⟩
      · obtain rfl := again.fit.ordered.eq_of_slot present member slot
        exact ⟨old, present, rfl, rfl, payload, rfl⟩
      · exact ⟨other, present, rfl, rfl, stream, rfl⟩
    have within' : Within base piece.lane (b.cat.complete item) := fun other known lane stream => by
      obtain ⟨old, present, start, inLane, payload', arc⟩ := same known stream
      rw [← start, ← arc]
      exact again.within old present (inLane.trans lane) payload'
    refine ⟨@Within.storeNew _ _ _ _ _ within' framable (by omega),
      storeNew_front rfl (fun other known lane stream => ?_) framable kept calm'.numbered⟩
    obtain ⟨old, present, start, inLane, payload', _⟩ := same known stream
    have last := again.last current present (inLane.trans lane) payload'
    rw [← start]
    omega
  | apart _ =>
    refine ⟨again.within.storeNew framable (by omega), ?_⟩
    rcases state with free | ⟨item, current⟩
    · refine storeNew_front free (fun item known lane stream => ?_) framable kept calm'.numbered
      obtain ⟨current, found, _⟩ := again.leads item known lane stream
      rw [located, free] at found
      cases found
    · exact again.storeNew current framable (by omega) calm'

theorem Steady.placeAll (steady : b.Steady l idle piece.now base piece.lane) {data : ByteArray}
    {offset : Nat} (reach : Seq.distance base piece.seq + (data.size - offset) < Seq.halfTurn)
    (stored : Option Outcome) (duplicate : Bool)
    (room : (b.placeAll l idle piece data offset stored duplicate).2.cat.nextSlot? l ≠ none) :
    (b.placeAll l idle piece data offset stored duplicate).2.Steady l idle piece.now base piece.lane := by
  fun_induction Bench.placeAll l idle b piece data offset stored duplicate with
  | case1 b piece offset stored duplicate rest placed b' taken dropped =>
    have spec := (@Writing.Bench.Fit.place_progress l idle b piece) steady.fit rest
    rw [taken] at spec
    exact absurd (spec.1 dropped) room
  | case2 b piece offset stored duplicate rest placed b' taken kept duplicate' stored' progress =>
    rename_i ih
    have spec := (@Writing.Bench.Fit.place_progress l idle b piece) steady.fit rest
    have next := steady.place rest reach
    rw [taken] at spec next
    have consumed : placed.consumed ≤ data.size - offset := (spec.2 kept).2
    refine ih (next kept) ?_ room
    have walked := @Seq.distance_advance_within base piece.seq placed.consumed (by omega)
    show Seq.distance base (piece.seq.advance placed.consumed) + _ < _
    omega
  | case3 b piece offset stored duplicate rest placed b' taken kept duplicate' stored' =>
    rename_i stuck
    exact absurd (steady.fit.consumed_pos rest taken kept) stuck
  | case4 b piece offset stored duplicate done => exact steady

theorem Fit.covers_arc (fit : b.Fit l lane) {position : Seq} (held : Covers b.cat.items lane position) :
    ∃ item ∈ b.cat.items, item.lane = lane ∧ item.isPayload = true ∧
      Seq.distance item.start position < item.arc.length := by
  obtain ⟨item, member, inLane, payload, f, listed, spans⟩ := held
  refine ⟨item, member, inLane, payload, ?_⟩
  have covers := ((fit.sound item member).spans_iff payload (fit.ordered.fits item member) position).mpr
    ⟨f, listed, spans⟩
  rw [Item.spans_iff, Seq.Arc.Contains, (fit.arc_start member payload).1] at covers
  exact covers

/-- What a piece meets whose first byte is stored: the block before it covers that, and the open block
does not end there. -/
theorem Steady.covered (steady : b.Steady l idle now base piece.lane)
    (held : Covers b.cat.items piece.lane piece.seq) :
    (∃ item, b.cat.predecessor? piece.key = some item ∧
      Seq.inRange piece.seq item.header.base item.header.endSeq = true) ∧
    ∀ current, b.writable? idle now = some current → current.header.hasData = true ∧
      current.header.endSeq ≠ piece.seq := by
  obtain ⟨cover, known, inLane, payload, inside⟩ := steady.fit.covers_arc held
  have starts := (steady.fit.arc_start known payload).1
  have short := steady.within cover known inLane payload
  have place : Seq.distance base piece.seq =
      Seq.distance base cover.start + Seq.distance cover.start piece.seq := by
    rw [← Seq.distance_advance_within (by omega), Seq.advance_distance]
  refine ⟨?_, fun current found => ?_⟩
  · cases found : b.cat.predecessor? piece.key with
    | none =>
      have missed := Catalog.predecessor?_eq_none found known (inLane.trans piece.lane_key.symm)
      rw [payload] at missed
      cases missed
    | some item =>
      obtain ⟨member, there, stream, nearest⟩ := steady.fit.ordered.sorted.predecessor?_spec found
      have near := nearest cover known (inLane.trans piece.lane_key.symm) payload
      rw [Piece.seq_key] at near
      rw [Piece.lane_key] at there
      obtain ⟨begins, some⟩ := steady.fit.arc_start member stream
      have close := steady.within item member there stream
      suffices same : item = cover by
        refine ⟨item, rfl, ?_⟩
        rw [← Item.Spans, Item.spans_iff, Seq.Arc.Contains, begins, same]
        exact inside
      by_contra other
      have apart : item.slot ≠ cover.slot := fun same =>
        other (steady.fit.ordered.eq_of_slot member known same)
      have sides := @Seq.Arc.Clear.sides base _ _
        (steady.calm.spaced item member cover known apart stream payload (there.trans inLane.symm))
      rw [begins, starts] at sides
      rw [Seq.halfTurn] at *
      -- the block before it would start behind the one that covers it, or beyond the half turn
      rcases Nat.lt_or_ge (Seq.distance base piece.seq) (Seq.distance base item.start) with beyond | behind
      · have turned := Seq.distance_of_lt beyond
        rw [Seq.circle] at turned
        omega
      · rw [Seq.distance_of_le behind] at near
        omega
  · have member := mem_of_writable? found
    have writable := (writable?_spec found).2.1
    obtain ⟨chunks, streams⟩ := steady.fit.streams member writable
    have there := steady.fit.lane_eq found
    refine ⟨streams.data, fun stop => ?_⟩
    have last := steady.last found known inLane payload
    have behind := steady.fit.distance_endSeq steady.within member there streams.isPayload
    rw [stop] at behind
    by_cases same : current.slot = cover.slot
    · obtain rfl := steady.fit.ordered.eq_of_slot member known same
      omega
    · have some := (steady.fit.arc_start member streams.isPayload).2
      have sides := @Seq.Arc.Clear.sides base _ _
        (steady.calm.spaced current member cover known same streams.isPayload payload (there.trans inLane.symm))
      rw [(steady.fit.arc_start member streams.isPayload).1, starts] at sides
      omega

theorem Steady.place_covered (steady : b.Steady l idle piece.now base piece.lane)
    (held : Covers b.cat.items piece.lane piece.seq) (data : ByteArray) (offset : Nat) :
    (b.place l idle piece data offset).1.outcome = .retransmission ∧
      (b.place l idle piece data offset).2 = b.reopen idle piece.now := by
  obtain ⟨⟨item, found, inside⟩, elsewhere⟩ := steady.covered held
  have same := (reopen_calm steady.calm).1
  have met (chunk : ByteArray) : (b.reopen idle piece.now).meetPredecessor? l idle piece chunk =
      some (⟨min chunk.size (Seq.distance piece.seq item.header.endSeq), .retransmission⟩,
        b.reopen idle piece.now) := by
    rw [meetPredecessor?, same, found]
    exact if_pos inside
  rw [Bench.place]
  cases current : b.writable? idle piece.now with
  | none =>
    rw [continueOpen?, Option.none_or, met, Option.getD_some]
    exact ⟨rfl, rfl⟩
  | some open' =>
    obtain ⟨data', apart⟩ := elsewhere open' current
    have passes : (open'.header.hasData && open'.header.endSeq != piece.seq) = true := by
      rw [data', Bool.true_and, bne_iff_ne]
      exact apart
    rw [continueOpen?, if_pos passes, Option.none_or, met, Option.getD_some]
    exact ⟨rfl, rfl⟩

end Bench

namespace Placing

variable {l : Layout} {idle : Micros} {b : Bench} {piece : Piece} {held : Held} {base : Seq}

theorem placePiece_covered (holds : Holds l held b.cat) (steady : b.Steady l idle piece.now base piece.lane)
    (stored : Covers b.cat.items piece.lane piece.seq) {data : ByteArray} {offset : Nat}
    (rest : offset < data.size) :
    placePiece l idle piece data offset (b.openBlock, held) =
      .ok (b.place l idle piece data offset).1 ((b.place l idle piece data offset).2.openBlock, held) := by
  obtain ⟨held₁, ran, _⟩ := (@placePiece_run l idle b piece _) holds rest
  suffices still : ∃ placed own, placePiece l idle piece data offset (b.openBlock, held) =
      .ok placed (own, held) by
    obtain ⟨placed, own, still⟩ := still
    rw [ran] at still
    obtain rfl := (Prod.mk.inj (EStateM.Result.ok.inj still).2).2
    exact ran
  obtain ⟨⟨item, found, inside⟩, elsewhere⟩ := steady.covered stored
  obtain ⟨held', reopened, _, still, _⟩ := (@reopen_run _ idle _ _) holds piece.now
  obtain rfl := still fun item located => steady.calm.not_expired (Bench.mem_of_located located)
  have searched : successorStart l piece.flow piece.side piece.seq held' =
      .ok (b.cat.successor? piece.key) held' :=
    holds.successorStart_run piece.flow piece.side piece.seq
  have before : predecessor l piece.flow piece.side piece.seq held' = .ok (some ⟨item.entry, item.header⟩) held' := by
    have ran := holds.predecessor_run piece.flow piece.side piece.seq
    rw [show FlowKey.pack piece.flow piece.side piece.seq = piece.key from rfl, found] at ran
    exact ran
  have passed (chunk : ByteArray) (own : Option Ref) :
      continueOpen l piece chunk ((b.writable? idle piece.now).map fun item => (item.slot, item.header))
        (own, held') = .ok none (own, held') := by
    cases current : b.writable? idle piece.now with
    | none => rfl
    | some open' =>
      obtain ⟨data', apart⟩ := elsewhere open' current
      have passes : (open'.header.hasData && open'.header.endSeq != piece.seq) = true := by
        rw [data', Bool.true_and, bne_iff_ne]
        exact apart
      rw [Option.map_some, continueOpen, if_pos passes]
      rfl
  have met (chunk : ByteArray) (own : Option Ref) : meetPredecessor l idle piece chunk (own, held') =
      .ok (some ⟨min chunk.size (Seq.distance piece.seq item.header.endSeq), .retransmission⟩)
        (own, held') := by
    rw [meetPredecessor, Work.bind_ok (HoldWith.onStore_ok before)]
    simp only [if_pos inside]
    rfl
  rw [placePiece, Work.bind_ok reopened, Work.bind_ok (HoldWith.onStore_ok searched)]
  cases b.cat.successor? piece.key <;>
  · dsimp only
    rw [Work.bind_ok (Work.pure_run _ _), Work.bind_ok (passed _ _)]
    dsimp only
    rw [Work.bind_ok (met _ _)]
    exact ⟨_, _, rfl⟩

theorem placeFrom_covered (holds : Holds l held b.cat) (steady : b.Steady l idle piece.now base piece.lane)
    {data : ByteArray} {offset : Nat}
    (reach : Seq.distance base piece.seq + (data.size - offset) < Seq.halfTurn)
    (stored : ∀ step, step < data.size - offset → Covers b.cat.items piece.lane (piece.seq.advance step))
    (duplicate : Bool) :
    ∃ own, placeFrom l idle piece data offset none duplicate (b.openBlock, held) =
      .ok (summary none (duplicate || offset < data.size)) (own, held) := by
  generalize none_yet : (none : Option Outcome) = before
  fun_induction Bench.placeAll l idle b piece data offset before duplicate with
  | case1 b piece offset before duplicate rest placed b' taken dropped =>
    have first := stored 0 (by omega)
    rw [Seq.advance_zero] at first
    have same := (steady.place_covered first data offset).1
    rw [taken, dropped] at same
    cases same
  | case2 b piece offset before duplicate rest placed b' taken kept duplicate' stored' progress =>
    rename_i ih
    subst none_yet
    have first := stored 0 (by omega)
    rw [Seq.advance_zero] at first
    obtain ⟨again, same⟩ := steady.place_covered first data offset
    have unchanged := (Bench.reopen_calm steady.calm).1
    have spec := (@Writing.Bench.Fit.place_progress l idle b piece) steady.fit rest
    have next := steady.place rest reach (by rw [again]; exact fun same => by cases same)
    have ran := placePiece_covered holds steady first rest
    rw [taken] at spec next again same ran
    dsimp only at again same ran next
    have cat : b'.cat = b.cat := same.symm ▸ unchanged
    have consumed : placed.consumed ≤ data.size - offset := (spec.2 kept).2
    have walked := @Seq.distance_advance_within base piece.seq placed.consumed (by omega)
    have none_again : none = stored' := by simp only [stored', again, dite_true]
    have duplicate_now : duplicate' = true := by
      simp only [duplicate', again, decide_true, Bool.or_true]
    obtain ⟨own, others⟩ := ih (cat.symm ▸ holds) next
      (by
        show Seq.distance base (piece.seq.advance placed.consumed) + _ < _
        omega)
      (fun step small => by
        rw [cat]
        show Covers b.cat.items piece.lane ((piece.seq.advance placed.consumed).advance step)
        rw [Seq.advance_advance]
        exact stored _ (by omega)) none_again
    refine ⟨own, ?_⟩
    rw [placeFrom, dif_pos rest, Work.bind_ok ran]
    rw [duplicate_now, Bool.true_or, ← none_again] at others
    simp only [dif_pos progress, decide_eq_true rest, Bool.or_true, again, if_true, decide_true,
      if_neg (show ¬ Outcome.retransmission = .dropped from fun same => by cases same)]
    exact others
  | case3 b piece offset before duplicate rest placed b' taken kept duplicate' stored' =>
    rename_i stuck
    exact absurd (steady.fit.consumed_pos rest taken kept) stuck
  | case4 b piece offset before duplicate done =>
    subst none_yet
    refine ⟨b.openBlock, ?_⟩
    rw [placeFrom, dif_neg done, decide_eq_false done, Bool.or_false]
    rfl

end Placing

end Writing

end Reassembly
