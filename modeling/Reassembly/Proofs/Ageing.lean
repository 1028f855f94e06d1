import Reassembly.Proofs.Freezing
import Reassembly.Proofs.Reconstruction
import Reassembly.Proofs.Retention

/-!
How long a block ages between its completion and its reading. A reader finds a block ready when the
time noted in it is longer ago than the idle time. The sweep notes its own time in the blocks that it
completes. A put completes the open block of its side when it finds it idle, or too full for the bytes
that continue it, and leaves there the time of the last frame; so such a block may be ready at once.
-/

namespace Reassembly

open Store Reading

theorem Operation.settled_effect {a : Attachment} {cat : Catalog} {operation : Operation} {item : Item}
    (complete : item.header.isComplete = true) (new : item ∉ cat.items)
    (there : item ∈ (operation.effect a cat).2.items) :
    ∃ time, operation.time? = some time ∧
      (item.header.lastUpdate = time ∨ ∃ segment, operation = .put segment time) := by
  cases operation with
  | put segment now => exact ⟨now, rfl, .inr ⟨segment, rfl⟩⟩
  | sweep now =>
    obtain ⟨old, known, rfl⟩ := List.mem_map.mp there
    refine ⟨now, rfl, .inl ?_⟩
    by_cases idle : old.isIdle a.config.blockIdleTimeout now = true
    · rw [Item.swept, if_pos idle]
    · rw [Item.swept, if_neg idle] at new
      exact absurd known new
  | erase ref now =>
    refine absurd ?_ new
    rw [effect, Catalog.erase] at there
    split at there
    · exact there
    · exact List.mem_of_mem_eraseIdx there
  | removeFlow | nextMarker | firstFrom | next | occupancy => exact absurd there new

namespace Commons

/-- As a handle sees the region, it holds the block just so. -/
def Stocks (c : Commons) (item : Item) : Prop :=
  ∃ a ∈ c.handles, item ∈ Catalog.itemsIn a.layout c.bytes

/-- The move of a run that made the block what it is; from then on the block was stored just so. -/
structure SettledBy (start : Commons) (moves : List Move) (index : Nat) (item : Item) : Prop where
  inside : index < moves.length
  before : ¬ (start.run (moves.take index)).Stocks item
  since : ∀ count, index < count → count ≤ moves.length →
    (start.run (moves.take count)).Stocks item

/-- Whenever a handle finds a payload block ready after a run, the move that completed the block is
longer ago than the idle time. -/
def Ages (start : Commons) (moves : List Move) : Prop :=
  ∀ a ∈ (start.run moves).handles, ∀ now, (∀ time ∈ moves.filterMap Move.time?, time ≤ now) →
    ∀ pos item, (Catalog.itemsIn a.layout (start.run moves).bytes)[pos]? = some item →
      item.isPayload = true →
      ∀ block r', Hold.run a.layout (blockAt (a.view now) pos) ⟨a.handle, (start.run moves).bytes⟩ =
          .ok block r' → block.ready = true →
        ∃ index time, SettledBy start moves index item ∧
          moves[index]?.bind Move.time? = some time ∧ a.config.blockIdleTimeout < elapsed now time

/-- The move is a put that completes a payload block into which nothing was written at its time. -/
def Curtails (c : Commons) : Move → Prop
  | .operate index (.put segment now) =>
    ∃ item, item.isPayload = true ∧ item.header.isComplete = true ∧ ¬ c.Stocks item ∧
      (c.step (.operate index (.put segment now))).Stocks item ∧ item.header.lastUpdate < now
  | _ => False

/-- The clock of a run does not go back, has started, and has room for the idle times. -/
structure Clocked (start : Commons) (moves : List Move) : Prop where
  times : (moves.filterMap Move.time?).Pairwise (· ≤ ·)
  started : ∀ time ∈ moves.filterMap Move.time?, 0 < time
  room : ∀ a ∈ (start.run moves).handles, ∀ time ∈ moves.filterMap Move.time?,
    time.toNat + a.config.blockIdleTimeout.toNat + 1 < UInt64.size

variable {l : Layout} {c start : Commons} {cat : Catalog}

theorem Carrying.configs_step (carrying : Carrying l c cat) (move : Move) :
    ∃ more, (c.step move).handles.map Attachment.config = c.handles.map Attachment.config ++ more := by
  cases move with
  | attach handle config =>
    rw [Commons.step]
    split
    · next a _ _ => exact ⟨[a.config], by rw [List.map_append, List.map_singleton]⟩
    · exact ⟨[], (List.append_nil _).symm⟩
  | operate index operation =>
    cases attached : c.handles[index]? with
    | none => exact ⟨[], by simp only [Commons.step, attached, List.append_nil]⟩
    | some a =>
      obtain ⟨bytes, stepped, _⟩ := carrying.operate attached operation
      obtain ⟨live, here⟩ := List.getElem?_eq_some_iff.mp attached
      refine ⟨[], ?_⟩
      rw [stepped, List.append_nil]
      dsimp only
      rw [List.map_set, operation.config_effect, ← here, ← List.getElem_map Attachment.config,
        List.set_getElem_self]
      rwa [List.length_map]

theorem Carrying.configs_run (carrying : Carrying l c cat) (moves : List Move) :
    ∃ more, (c.run moves).handles.map Attachment.config = c.handles.map Attachment.config ++ more := by
  induction moves generalizing c cat with
  | nil => exact ⟨[], (List.append_nil _).symm⟩
  | cons move rest ih =>
    obtain ⟨first, here⟩ := carrying.configs_step move
    obtain ⟨_, carrying'⟩ := carrying.step move
    obtain ⟨others, later⟩ := ih carrying'
    exact ⟨first ++ others, by rw [← List.append_assoc, ← here]; exact later⟩

theorem Carrying.stocks_iff (carrying : Carrying l c cat) (held : c.handles ≠ []) {item : Item} :
    c.Stocks item ↔ item ∈ cat.items := by
  constructor
  · rintro ⟨a, attached, listed⟩
    rwa [(carrying.seen attached).itemsIn_eq] at listed
  · intro member
    obtain ⟨a, attached⟩ := List.exists_mem_of_ne_nil _ held
    refine ⟨a, attached, ?_⟩
    rwa [(carrying.seen attached).itemsIn_eq]

theorem Carrying.settled_step (carrying : Carrying l c cat) (held : c.handles ≠ []) {move : Move}
    {item : Item} (complete : item.header.isComplete = true) (new : ¬ c.Stocks item)
    (there : (c.step move).Stocks item) :
    ∃ time, move.time? = some time ∧
      (item.header.lastUpdate = time ∨ ∃ index segment, move = .operate index (.put segment time)) := by
  rw [carrying.stocks_iff held] at new
  have kept : (c.step move).handles ≠ [] := by
    obtain ⟨a, attached, _⟩ := there
    exact List.ne_nil_of_mem attached
  cases move with
  | attach handle config =>
    rw [(carrying.attach handle config).2.stocks_iff kept] at there
    exact absurd there new
  | operate index operation =>
    cases attached : c.handles[index]? with
    | none =>
      have same : c.step (.operate index operation) = c := by simp only [Commons.step, attached]
      rw [same, carrying.stocks_iff held] at there
      exact absurd there new
    | some a =>
      obtain ⟨_, _, after⟩ := carrying.operate attached operation
      rw [after.stocks_iff kept] at there
      obtain ⟨time, at_time, noted | ⟨segment, rfl⟩⟩ :=
        Operation.settled_effect (a := a) complete new there
      · exact ⟨time, at_time, .inl noted⟩
      · exact ⟨time, at_time, .inr ⟨index, segment, rfl⟩⟩

theorem Carrying.step_noted (carrying : Carrying l c cat) (noted : Micros → Prop)
    (before : ∀ item ∈ cat.items, noted item.header.lastUpdate) {move : Move}
    (timed : ∀ time, move.time? = some time → noted time) :
    ∃ cat', Carrying l (c.step move) cat' ∧ ∀ item ∈ cat'.items, noted item.header.lastUpdate := by
  cases move with
  | attach handle config => exact ⟨cat, (carrying.attach handle config).2, before⟩
  | operate index operation =>
    cases attached : c.handles[index]? with
    | none => exact ⟨cat, by simpa only [Commons.step, attached] using carrying, before⟩
    | some a =>
      obtain ⟨_, _, after⟩ := carrying.operate attached operation
      refine ⟨_, after, ?_⟩
      cases operation with
      | put segment now =>
        obtain ⟨rfl, _, aimed⟩ := carrying.tidy a (List.mem_of_getElem? attached)
        have fit : Writing.Desk.Fit a.layout ⟨a.writers, cat⟩ :=
          ⟨carrying.carries.ordered, carrying.sound, aimed⟩
        exact fit.put_lastUpdate (timed now rfl) before
      | sweep now =>
        intro item listed
        obtain ⟨old, known, rfl⟩ := List.mem_map.mp listed
        rw [Item.swept]
        split
        · exact timed now rfl
        · exact before old known
      | erase ref now =>
        intro item listed
        rw [Operation.effect, Catalog.erase] at listed
        split at listed
        · exact before item listed
        · exact before item (List.mem_of_mem_eraseIdx listed)
      | removeFlow | nextMarker | firstFrom | next | occupancy => exact before

theorem Carrying.run_noted (carrying : Carrying l c cat) (noted : Micros → Prop)
    (before : ∀ item ∈ cat.items, noted item.header.lastUpdate) (moves : List Move)
    (timed : ∀ time ∈ moves.filterMap Move.time?, noted time) :
    ∃ cat', Carrying l (c.run moves) cat' ∧ ∀ item ∈ cat'.items, noted item.header.lastUpdate := by
  induction moves generalizing c cat with
  | nil => exact ⟨cat, carrying, before⟩
  | cons move rest ih =>
    obtain ⟨_, carrying', noted'⟩ := carrying.step_noted noted before fun time at_time =>
      timed time (List.mem_filterMap.mpr ⟨move, List.mem_cons_self, at_time⟩)
    refine ih carrying' noted' fun time later => timed time ?_
    obtain ⟨other, listed, at_time⟩ := List.mem_filterMap.mp later
    exact List.mem_filterMap.mpr ⟨other, List.mem_cons_of_mem _ listed, at_time⟩

theorem exists_last_change {there : Nat → Prop} (absent : ¬ there 0) :
    ∀ last : Nat, there last →
      ∃ place < last, ¬ there place ∧ ∀ count, place < count → count ≤ last → there count
  | 0, present => absurd present absent
  | last + 1, present => by
    by_cases before : there last
    · obtain ⟨place, early, missing, since⟩ := exists_last_change absent last before
      refine ⟨place, Nat.lt_succ_of_lt early, missing, fun count later inside => ?_⟩
      rcases Nat.le_succ_iff.mp inside with within | rfl
      · exact since count later within
      · exact present
    · refine ⟨last, Nat.lt_succ_self _, before, fun count later inside => ?_⟩
      obtain rfl : count = last + 1 := by omega
      exact present

theorem Carrying.held_run (carrying : Carrying l c cat) (held : c.handles ≠ []) (moves : List Move) :
    (c.run moves).handles ≠ [] := by
  obtain ⟨more, same⟩ := carrying.configs_run moves
  intro gone
  rw [gone, List.map_nil] at same
  exact held (List.map_eq_nil_iff.mp (List.append_eq_nil_iff.mp same.symm).1)

theorem Carrying.exists_settledBy (carrying : Carrying l start .empty) {moves : List Move} {item : Item}
    (there : (start.run moves).Stocks item) : ∃ index, SettledBy start moves index item := by
  have absent : ¬ (start.run (moves.take 0)).Stocks item := by
    rintro ⟨a, attached, listed⟩
    rw [List.take_zero] at attached listed
    have none_there := (carrying.seen attached).itemsIn_eq ▸ listed
    cases none_there
  have present : (start.run (moves.take moves.length)).Stocks item := by rwa [List.take_length]
  obtain ⟨index, inside, before, since⟩ := @exists_last_change
    (fun count => (start.run (moves.take count)).Stocks item) absent moves.length present
  exact ⟨index, inside, before, since⟩

/-- A block that is ready at some time but completed no idle time before that, although it notes an
earlier time than that of its completion. -/
theorem exists_early {idle noted time : Micros} (early : noted < time)
    (room : time.toNat + idle.toNat + 1 < UInt64.size) :
    ∃ now, time ≤ now ∧ idle < elapsed now noted ∧ ¬ idle < elapsed now time := by
  have below := UInt64.lt_iff_toNat_lt.mp early
  have due : (noted + idle + 1).toNat = noted.toNat + idle.toNat + 1 := by
    rw [UInt64.toNat_add, UInt64.toNat_add, UInt64.toNat_one]
    rw [UInt64.size] at room
    omega
  have ready : idle < elapsed (noted + idle + 1) noted := by
    rw [UInt64.lt_iff_toNat_lt, toNat_elapsed]
    omega
  by_cases passed : time ≤ noted + idle + 1
  · refine ⟨noted + idle + 1, passed, ready, ?_⟩
    rw [UInt64.lt_iff_toNat_lt, toNat_elapsed]
    omega
  · have later := UInt64.le_of_lt (UInt64.not_le.mp passed)
    refine ⟨time, UInt64.le_refl _, UInt64.lt_of_lt_of_le ready (elapsed_mono later), ?_⟩
    rw [elapsed_self]
    exact UInt64.not_lt_zero

theorem Carrying.ages (carrying : Carrying l start .empty) (held : start.handles ≠ [])
    {moves : List Move} (full : ∀ count move, moves[count]? = some move →
      ¬ (start.run (moves.take count)).Curtails move) : Ages start moves := by
  intro a attached now _ pos item here stream block r' read ready
  obtain ⟨cat, after⟩ := carrying.run moves
  have seen := after.seen attached
  rw [seen.itemsIn_eq] at here
  obtain ⟨live, rfl⟩ := List.getElem?_eq_some_iff.mp here
  have copied := seen.run_ok (blockAt_run (v := a.view now) seen live)
  obtain rfl := (EStateM.Result.ok.inj (copied.symm.trans read)).1
  obtain ⟨complete, expired⟩ := Bool.and_eq_true_iff.mp ready
  have waited : a.config.blockIdleTimeout < elapsed now cat.items[pos].header.lastUpdate :=
    of_decide_eq_true (Bool.and_eq_true_iff.mp expired).2
  obtain ⟨index, settled⟩ := carrying.exists_settledBy
    ((after.stocks_iff (List.ne_nil_of_mem attached)).mpr (List.getElem_mem live))
  obtain ⟨middle, before⟩ := carrying.run (moves.take index)
  have inside := settled.inside
  have listed := List.getElem?_eq_getElem inside
  have made := settled.since (index + 1) (Nat.lt_succ_self _) inside
  rw [run_take_succ listed] at made
  obtain ⟨time, at_time, noted⟩ :=
    before.settled_step (carrying.held_run held _) complete settled.before made
  refine ⟨index, time, settled, by rw [listed]; exact at_time, UInt64.lt_of_lt_of_le waited ?_⟩
  refine elapsed_anti ?_
  rcases noted with noted | ⟨handle, segment, put⟩
  · exact UInt64.le_of_eq noted.symm
  · rw [put] at listed made
    refine UInt64.not_lt.mp fun early => full index _ listed ?_
    exact ⟨_, stream, complete, settled.before, made, early⟩

theorem Carrying.config_kept (carrying : Carrying l c cat) {moves : List Move} {count : Nat}
    {a : Attachment} (attached : a ∈ (c.run (moves.take count)).handles) :
    ∃ later ∈ (c.run moves).handles, later.config = a.config := by
  obtain ⟨_, before⟩ := carrying.run (moves.take count)
  obtain ⟨more, same⟩ := before.configs_run (moves.drop count)
  rw [Commons.run, Commons.run, ← List.foldl_append, List.take_append_drop] at same
  have listed : a.config ∈ (c.run moves).handles.map Attachment.config := by
    rw [Commons.run, same]
    exact List.mem_append_left _ (List.mem_map_of_mem attached)
  exact List.mem_map.mp listed

theorem Carrying.curtails (carrying : Carrying l c cat) {index : Nat} {a : Attachment}
    (attached : c.handles[index]? = some a) {segment : Segment} {now : Micros}
    (closed : ∃ item ∈ ((Operation.put segment now).effect a cat).2.items, item.isPayload = true ∧
      item.header.isComplete = true ∧ item ∉ cat.items ∧ item.header.lastUpdate < now) :
    c.Curtails (.operate index (.put segment now)) := by
  obtain ⟨item, listed, stream, complete, new, early⟩ := closed
  obtain ⟨bytes, stepped, after⟩ := carrying.operate attached (.put segment now)
  have held := List.ne_nil_of_mem (List.mem_of_getElem? attached)
  have kept : (c.step (.operate index (.put segment now))).handles ≠ [] :=
    carrying.held_run held [.operate index (.put segment now)]
  exact ⟨item, stream, complete, mt (carrying.stocks_iff held).mp new,
    (after.stocks_iff kept).mpr listed, early⟩

theorem Carrying.exists_ready (carrying : Carrying l c cat)
    (started : ∀ item ∈ cat.items, 0 < item.header.lastUpdate) {a : Attachment} (attached : a ∈ c.handles)
    {item : Item} (listed : item ∈ Catalog.itemsIn a.layout c.bytes)
    (complete : item.header.isComplete = true) {time : Micros} (early : item.header.lastUpdate < time)
    (room : time.toNat + a.config.blockIdleTimeout.toNat + 1 < UInt64.size) :
    ∃ now pos block r', time ≤ now ∧ (Catalog.itemsIn a.layout c.bytes)[pos]? = some item ∧
      Hold.run a.layout (blockAt (a.view now) pos) ⟨a.handle, c.bytes⟩ = .ok block r' ∧
      block.ready = true ∧ ¬ a.config.blockIdleTimeout < elapsed now time := by
  obtain ⟨now, later, waited, young⟩ := exists_early early room
  have seen := carrying.seen attached
  rw [seen.itemsIn_eq] at listed ⊢
  obtain ⟨pos, live, rfl⟩ := List.mem_iff_getElem.mp listed
  have copied := seen.run_ok (blockAt_run (v := a.view now) seen live)
  have expired := Item.expired_of_waited (carrying.sound _ listed).used (started _ listed) waited
  exact ⟨now, pos, _, _, later, List.getElem?_eq_getElem live, copied,
    Bool.and_eq_true_iff.mpr ⟨complete, expired⟩, young⟩

theorem Clocked.le_time {moves : List Move} (clocked : Clocked start moves) {count : Nat} {move : Move}
    (here : moves[count]? = some move) {time : Micros} (at_time : move.time? = some time) :
    ∀ other ∈ (moves.take (count + 1)).filterMap Move.time?, other ≤ time := by
  have times := clocked.times
  rw [← List.take_append_drop (count + 1) moves, List.filterMap_append] at times
  have upTo := (List.pairwise_append.mp times).1
  rw [List.take_add_one, here, Option.toList_some, List.filterMap_append,
    List.filterMap_cons_some at_time, List.filterMap_nil] at upTo ⊢
  intro other listed
  rcases List.mem_append.mp listed with before | same
  · exact (List.pairwise_append.mp upTo).2.2 other before time (List.mem_singleton_self _)
  · exact UInt64.le_of_eq (List.mem_singleton.mp same)

theorem Carrying.not_ages (carrying : Carrying l start .empty) {moves : List Move}
    (clocked : Clocked start moves) {count : Nat} {move : Move} (here : moves[count]? = some move)
    (curtails : (start.run (moves.take count)).Curtails move) : ¬ Ages start (moves.take (count + 1)) := by
  intro ages
  obtain ⟨index, segment, time, rfl⟩ : ∃ index segment time, move = .operate index (.put segment time) := by
    rcases move with _ | ⟨index, operation⟩
    · exact curtails.elim
    · cases operation with
      | put segment time => exact ⟨index, segment, time, rfl⟩
      | _ => exact curtails.elim
  obtain ⟨item, stream, complete, new, made, early⟩ := curtails
  rw [← run_take_succ here] at made
  obtain ⟨a, attached, listed⟩ := made
  have at_time : time ∈ moves.filterMap Move.time? :=
    List.mem_filterMap.mpr ⟨_, List.mem_of_getElem? here, rfl⟩
  -- the handle stays attached, so the clock has room for its idle time
  obtain ⟨later, attached', same⟩ := carrying.config_kept attached
  have room := clocked.room later attached' time at_time
  rw [same] at room
  obtain ⟨cat, after, started⟩ := carrying.run_noted (0 < ·) nofun (moves.take (count + 1))
    fun other listed => clocked.started other
      (((List.take_sublist _ _).filterMap _).subset listed)
  obtain ⟨now, pos, block, r', due, there, read, ready, young⟩ :=
    after.exists_ready started attached listed complete early room
  obtain ⟨index', time', settled, at_time', aged⟩ := ages a attached now
    (fun other before => UInt64.le_trans (clocked.le_time here rfl other before) due) pos item there
    stream block r' read ready
  -- only the put itself can have made the block what it is
  obtain rfl : index' = count := by
    have inside := settled.inside
    have long := (List.getElem?_eq_some_iff.mp here).1
    rw [List.length_take] at inside
    by_contra apart
    have since := settled.since count (by omega) (by rw [List.length_take]; omega)
    rw [List.take_take, Nat.min_eq_left (Nat.le_succ _)] at since
    exact new since
  rw [List.getElem?_take_of_lt (Nat.lt_succ_self _), here] at at_time'
  obtain rfl := Option.some.inj at_time'
  exact young aged

/-- A side of a flow goes on elsewhere when its open block has been idle. -/
def detour : List Move := [
  .put ⟨⟨7⟩, .source, ⟨100⟩, Bytes.zeros 10⟩ 1000000,
  .put ⟨⟨7⟩, .source, ⟨200⟩, Bytes.zeros 10⟩ 1100001].map (.operate 0)

theorem exists_detour : ∃ start : Commons, start.Fresh ∧ Clocked start detour ∧
    ∃ move, detour[1]? = some move ∧ (start.run (detour.take 1)).Curtails move := by
  obtain ⟨start, fresh, handles, carrying⟩ := @Commons.Fresh.of_config
    { blockCapacity := 64, maxBlocks := 8 } _ rfl rfl
  obtain ⟨first, before⟩ := carrying.alone handles [
    .put ⟨⟨7⟩, .source, ⟨100⟩, Bytes.zeros 10⟩ 1000000]
  -- the times are gone through one by one, not all that there are
  have times {p : Micros → Bool} (all : (detour.filterMap Move.time?).all p = true) :
      ∀ time ∈ detour.filterMap Move.time?, p time = true := List.all_eq_true.mp all
  refine ⟨start, fresh, ⟨by decide, fun time timed => ?_, ?_⟩, _, rfl, ?_⟩
  · exact of_decide_eq_true (times (p := fun time => decide (0 < time)) (by decide) time timed)
  · intro a attached time timed
    have alone := (carrying.alone handles [
      .put ⟨⟨7⟩, .source, ⟨100⟩, Bytes.zeros 10⟩ 1000000,
      .put ⟨⟨7⟩, .source, ⟨200⟩, Bytes.zeros 10⟩ 1100001]).1
    obtain rfl := List.mem_singleton.mp (alone ▸ attached)
    exact of_decide_eq_true (times (p := fun time => decide (time.toNat + _ + 1 < UInt64.size))
      (by decide) time timed)
  · exact before.curtails (by rw [first]; rfl) (by decide +kernel)

theorem not_ages_of_clocked :
    ¬ ∀ start : Commons, start.Fresh → ∀ moves, Clocked start moves → Ages start moves := by
  intro all
  obtain ⟨start, fresh, clocked, move, here, curtails⟩ := exists_detour
  obtain ⟨l, carrying⟩ := fresh.carrying
  exact carrying.not_ages clocked here curtails (all start fresh _ clocked)

/-- From the formatting on, through any handles, every payload block that is found ready has aged for
the idle time after its completion, just if no put completes a block in which an earlier time is noted. -/
theorem Fresh.ages_iff_no_curtailment (fresh : start.Fresh) {moves : List Move}
    (clocked : Clocked start moves) :
    (∀ count, Ages start (moves.take count)) ↔
      ∀ count move, moves[count]? = some move → ¬ (start.run (moves.take count)).Curtails move := by
  obtain ⟨l, carrying⟩ := fresh.carrying
  have held : start.handles ≠ [] := by
    cases fresh
    exact List.cons_ne_nil _ _
  constructor
  · intro ages count move here curtails
    exact carrying.not_ages clocked here curtails (ages (count + 1))
  · intro full count
    refine carrying.ages held fun place move here => ?_
    obtain ⟨inside, _⟩ := List.getElem?_eq_some_iff.mp here
    rw [List.length_take] at inside
    rw [List.getElem?_take_of_lt (by omega)] at here
    rw [List.take_take, Nat.min_eq_left (by omega)]
    exact full place move here

/-- The block that the detour leaves behind is found ready too early. -/
theorem not_ages_detour : ∃ start : Commons, start.Fresh ∧ Clocked start detour ∧
    ¬ ∀ count, Ages start (detour.take count) := by
  obtain ⟨start, fresh, clocked, move, here, curtails⟩ := exists_detour
  refine ⟨start, fresh, clocked, fun ages => ?_⟩
  exact (fresh.ages_iff_no_curtailment clocked).mp ages 1 move here curtails

end Commons

end Reassembly
