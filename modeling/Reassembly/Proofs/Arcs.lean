import Reassembly.Proofs.Spreading

/-!
Blocks as arcs of the circle. Two arcs keep clear of one another if neither reaches the start of the
other, which is to say that they share no position; an edit keeps the blocks of a side clear of one
another if what it adds keeps clear of those that were there.
-/

namespace Reassembly

structure Seq.Arc where
  start : Seq
  length : Nat

namespace Seq.Arc

def Contains (arc : Arc) (position : Seq) : Prop := distance arc.start position < arc.length

/-- Neither arc reaches the start of the other. -/
def Clear (a b : Arc) : Prop :=
  a.length ≤ distance a.start b.start ∧ b.length ≤ distance b.start a.start

instance (a b : Arc) : Decidable (a.Clear b) := inferInstanceAs (Decidable (_ ∧ _))

variable {a b : Arc}

theorem Clear.symm (clear : a.Clear b) : b.Clear a := ⟨clear.2, clear.1⟩

theorem clear_iff (first : 0 < a.length) (second : 0 < b.length) :
    a.Clear b ↔ ∀ position, a.Contains position → ¬ b.Contains position := by
  constructor
  · rintro ⟨one, other⟩ position inside both
    rw [Contains, distance_eq] at inside both
    rw [distance_eq] at one other
    have := a.start.word.toNat_lt
    have := b.start.word.toNat_lt
    have := position.word.toNat_lt
    omega
  · intro apart
    constructor
    · by_contra reaches
      exact apart b.start (Nat.not_le.mp reaches) (by rw [Contains, distance_self]; exact second)
    · by_contra reaches
      exact apart a.start (by rw [Contains, distance_self]; exact first) (Nat.not_le.mp reaches)

theorem Clear.extend (clear : a.Clear b) {len : Nat}
    (room : len ≤ distance (a.start.advance a.length) b.start) :
    Clear ⟨a.start, a.length + len⟩ b := by
  obtain ⟨reach, back⟩ := clear
  refine ⟨?_, back⟩
  rw [distance_eq] at reach room ⊢
  rw [toNat_advance, circle] at room
  have := a.start.word.toNat_lt
  have := b.start.word.toNat_lt
  dsimp only
  omega

theorem Clear.behind (clear : a.Clear b) (some : 0 < a.length)
    (apart : b.start ≠ a.start.advance a.length) {len : Nat}
    (room : len ≤ distance (a.start.advance a.length) b.start) :
    Clear ⟨a.start.advance a.length, len⟩ b := by
  have ahead := distance_pos apart.symm
  obtain ⟨reach, back⟩ := clear
  refine ⟨room, ?_⟩
  rw [distance_eq] at reach back ahead ⊢
  rw [toNat_advance, circle] at ahead ⊢
  have := a.start.word.toNat_lt
  have := b.start.word.toNat_lt
  omega

theorem Clear.past (clear : a.Clear b) {seq : Seq} (nearest : distance a.start seq ≤ distance b.start seq)
    {len : Nat} (room : len ≤ distance seq b.start) : Clear ⟨seq, len⟩ b := by
  obtain ⟨reach, back⟩ := clear
  refine ⟨room, ?_⟩
  rw [distance_eq] at reach back
  rw [distance_eq, distance_eq] at nearest
  rw [distance_eq]
  have := a.start.word.toNat_lt
  have := b.start.word.toNat_lt
  have := seq.word.toNat_lt
  dsimp only
  omega

end Seq.Arc

namespace Store

/-- The position is one of a block's own: from its base up to its end. -/
def Item.Spans (item : Item) (position : Seq) : Prop :=
  Seq.inRange position item.header.base item.header.endSeq = true

def Apart (items : List Item) : Prop :=
  ∀ a ∈ items, ∀ b ∈ items, a ≠ b → a.isPayload = true → b.isPayload = true →
    a.key.flow = b.key.flow → a.key.side = b.key.side →
    ∀ position, a.Spans position → ¬ b.Spans position

def Item.arc (item : Item) : Seq.Arc :=
  ⟨item.header.base, Seq.distance item.header.base item.header.endSeq⟩

def Spaced (items : List Item) : Prop :=
  ∀ a ∈ items, ∀ b ∈ items, a.slot ≠ b.slot → a.isPayload = true → b.isPayload = true →
    a.lane = b.lane → a.arc.Clear b.arc

instance (items : List Item) : Decidable (Spaced items) :=
  inferInstanceAs (Decidable (∀ a ∈ items, ∀ b ∈ items, a.slot ≠ b.slot → a.isPayload = true →
    b.isPayload = true → a.lane = b.lane → a.arc.Clear b.arc))

theorem Item.spans_iff (item : Item) (position : Seq) :
    item.Spans position ↔ item.arc.Contains position := Seq.inRange_iff ..

theorem Item.Streams.arc_eq {item : Item} {chunks : List ByteArray} (streams : item.Streams chunks)
    {l : Layout} (fits : item.header.used ≤ l.capacity) :
    item.arc = ⟨item.start, Block.streamLength chunks⟩ := by
  rw [Item.arc, streams.base, streams.distance_eq fits]

theorem Item.Sound.spans_iff {item : Item} (sound : item.Sound) (payload : item.isPayload = true)
    {l : Layout} (fits : item.header.used ≤ l.capacity) (position : Seq) :
    item.Spans position ↔ ∃ f ∈ item.frames, f.Spans position := by
  rcases sound with marker | ⟨chunks, streams⟩
  · rw [marker.isPayload] at payload
    cases payload
  · have total := streams.streamLength_lt fits
    have limit := l.capacity_lt
    rw [streams.frames_eq fits, Block.lay_spans, Item.Spans, streams.base, streams.stop,
      Seq.inRange_advance _ _ (by rw [Seq.circle]; omega)]

theorem Item.Sound.arc_spec {item : Item} (sound : item.Sound) (payload : item.isPayload = true)
    {l : Layout} (fits : item.header.used ≤ l.capacity) :
    item.arc.start = item.start ∧ 0 < item.arc.length := by
  rcases sound with marker | ⟨chunks, streams⟩
  · rw [marker.isPayload] at payload
    cases payload
  · rw [streams.arc_eq fits]
    exact ⟨rfl, streams.streamLength_pos⟩

theorem Catalog.Sound.apart_iff {l : Layout} {cat : Catalog} (sound : cat.Sound)
    (ordered : cat.Ordered l) : Apart cat.items ↔ Spaced cat.items := by
  have clear_iff : ∀ a ∈ cat.items, ∀ b ∈ cat.items, a.isPayload = true → b.isPayload = true →
      (a.arc.Clear b.arc ↔ ∀ position, a.Spans position → ¬ b.Spans position) := by
    intro a one b other first second
    rw [Seq.Arc.clear_iff ((sound a one).arc_spec first (ordered.fits a one)).2
      ((sound b other).arc_spec second (ordered.fits b other)).2]
    simp only [Item.spans_iff]
  constructor
  · intro apart a one b other slots first second lane
    obtain ⟨flow, side⟩ := (FlowKey.lane_eq_iff a.key b.key).mp lane
    refine (clear_iff a one b other first second).mpr ?_
    exact apart a one b other (fun same => slots (congrArg Item.slot same)) first second flow side
  · intro spaced a one b other distinct first second flow side
    refine (clear_iff a one b other first second).mp ?_
    exact spaced a one b other (fun same => distinct (ordered.eq_of_slot one other same)) first second
      ((FlowKey.lane_eq_iff a.key b.key).mpr ⟨flow, side⟩)

theorem Grows.apart {lane : Nat} {fresh : Block.Frame → Prop} {l : Layout} {before after : Catalog}
    (grows : Grows lane fresh before.items after.items) (ordered : before.Ordered l)
    (sound : before.Sound) (ordered' : after.Ordered l) (sound' : after.Sound)
    (apart : Apart after.items) : Apart before.items := by
  have kept : ∀ old ∈ before.items, old.isPayload = true → ∀ new ∈ after.items,
      old.Extends fresh new → ∀ position, old.Spans position → new.Spans position := by
    intro old known payload new present ext position inside
    obtain ⟨added, frames, _⟩ := ext.frames
    obtain ⟨f, listed, spans⟩ :=
      ((sound old known).spans_iff payload (ordered.fits old known) position).mp inside
    exact ((sound' new present).spans_iff (ext.kind.trans payload) (ordered'.fits new present)
      position).mpr ⟨f, frames ▸ List.mem_append_left _ listed, spans⟩
  intro a one b other distinct first second flow side position inside both
  obtain ⟨a', one', ext⟩ := grows.kept a one
  obtain ⟨b', other', ext'⟩ := grows.kept b other
  refine apart a' one' b' other' (fun same => distinct (ordered.eq_of_slot one other ?_))
    (ext.kind.trans first) (ext'.kind.trans second) ?_ ?_ position
    (kept a one first a' one' ext position inside) (kept b other second b' other' ext' position both)
  · rw [← ext.slot_eq, ← ext'.slot_eq, same]
  · rw [Item.key, Item.key, ext.entry, ext'.entry]
    exact flow
  · rw [Item.key, Item.key, ext.entry, ext'.entry]
    exact side

namespace Spaced

variable {items items' : List Item}

theorem nil : Spaced [] := nofun

theorem of_subset (spaced : Spaced items) (fewer : items' ⊆ items) : Spaced items' :=
  fun a one b other => spaced a (fewer one) b (fewer other)

theorem map (spaced : Spaced items) {f : Item → Item} (entry : ∀ item, (f item).entry = item.entry)
    (kind : ∀ item, (f item).isPayload = item.isPayload) (arc : ∀ item, (f item).arc = item.arc) :
    Spaced (items.map f) := by
  intro a one b other slots first second lane
  obtain ⟨old, known, rfl⟩ := List.mem_map.mp one
  obtain ⟨next, present, rfl⟩ := List.mem_map.mp other
  have lanes : old.lane = next.lane := by
    rw [Item.lane, Item.lane, Item.key, Item.key, entry, entry] at lane
    exact lane
  rw [arc, arc]
  rw [Item.slot, Item.slot, entry, entry] at slots
  rw [kind] at first second
  exact spaced old known next present slots first second lanes

theorem insert (spaced : Spaced items) {new : Item}
    (listed : ∀ item ∈ items', item = new ∨ item ∈ items ∧ item.slot ≠ new.slot)
    (clear : new.isPayload = true → ∀ other ∈ items, other.slot ≠ new.slot →
      other.isPayload = true → other.lane = new.lane → new.arc.Clear other.arc) : Spaced items' := by
  intro a one b other slots first second lane
  rcases listed a one with rfl | ⟨known, apart⟩
  · rcases listed b other with rfl | ⟨present, distinct⟩
    · exact absurd rfl slots
    · exact clear first b present distinct second lane.symm
  · rcases listed b other with rfl | ⟨present, _⟩
    · exact (clear second a known apart first lane).symm
    · exact spaced a known b present slots first second lane

variable {l : Layout} {cat : Catalog}

theorem recast (spaced : Spaced cat.items) (ordered : cat.Ordered l) {item : Item}
    (member : item ∈ cat.items) {header : Block.Header} {body : ByteArray}
    (clear : ∀ other ∈ cat.items, other.slot ≠ item.slot → other.isPayload = true →
      other.lane = item.lane →
      (⟨item.entry, header, body⟩ : Item).isPayload = true →
      (⟨item.entry, header, body⟩ : Item).arc.Clear other.arc) :
    Spaced (cat.recast item.slot header body).items := by
  refine spaced.insert (fun other present => ?_)
    fun payload other known apart stream lane => clear other known apart stream lane payload
  rcases Catalog.mem_recast.mp present with ⟨old, known, same, rfl⟩ | ⟨known, apart⟩
  · obtain rfl := ordered.eq_of_slot known member same
    exact .inl rfl
  · exact .inr ⟨known, apart⟩

theorem complete (spaced : Spaced cat.items) (ordered : cat.Ordered l) {item : Item}
    (member : item ∈ cat.items) : Spaced (cat.complete item).items :=
  spaced.recast ordered member fun other known apart stream lane payload =>
    spaced item member other known apart.symm payload stream lane.symm

theorem shelve (spaced : Spaced cat.items) (ordered : cat.Ordered l) {item : Item}
    (next : cat.nextSlot? l = some item.slot)
    (clear : item.isPayload = true → ∀ other ∈ cat.items, other.isPayload = true →
      other.lane = item.lane → item.arc.Clear other.arc) : Spaced (cat.shelve item).items := by
  refine spaced.insert (fun other present => ?_)
    fun payload other known _ stream lane => clear payload other known stream lane
  rcases Catalog.mem_file.mp present with rfl | known
  · exact .inl rfl
  · refine .inr ⟨known, fun same => (ordered.nextSlot_spec next).2.1 ?_⟩
    exact same ▸ List.mem_map_of_mem known

theorem erase (spaced : Spaced cat.items) (ref : Ref) : Spaced (cat.erase ref).items := by
  rw [Catalog.erase]
  split
  · exact spaced
  · exact spaced.of_subset fun item kept => List.mem_of_mem_eraseIdx kept

theorem swept (spaced : Spaced cat.items) (idle now : Micros) : Spaced (cat.swept idle now).items := by
  refine spaced.map (fun item => item.entry_swept idle now) (fun item => ?_) fun item => ?_
  · rw [Item.swept]
    split <;> rfl
  · rw [Item.swept]
    split <;> rfl

end Spaced

end Store

end Reassembly
