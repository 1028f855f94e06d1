import Reassembly.Proofs.Gains

/-!
A region and the handles attached to it. Each operation of a handle has its effect on what the handle
knows and on the catalog of the region; the region carries a catalog in order from the formatting on,
whatever the handles do, and no operation of theirs fails.
-/

namespace Reassembly

open Store Reading

/-- What can be done through a handle. -/
inductive Operation where
  | put (segment : Segment) (now : Micros)
  | removeFlow (flow : FlowId)
  | sweep (now : Micros)
  | nextMarker (now : Micros)
  | firstFrom (key : FlowKey) (now : Micros)
  | next (ref : Ref) (now : Micros)
  | erase (ref : Ref) (now : Micros)
  | occupancy

namespace Operation

def viewing {α : Type} (now : Micros) (work : View → Access α) : Attached Unit := do
  let (a, _) ← get
  discard <| Attachment.onRegion (work (a.view now))

def work : Operation → Attached Unit
  | put segment now => discard <| Attachment.put segment now
  | removeFlow flow => modify fun (a, region) => ((a.removeFlow flow).2, region)
  | sweep now => discard <| Attachment.sweep now
  | nextMarker now => discard <| Attachment.nextMarker now
  | firstFrom key now => viewing now (Reading.firstFrom · key)
  | next ref now => viewing now (Reading.next · ref)
  | erase ref now => viewing now (Reading.erase · ref)
  | occupancy => do
    let (a, _) ← get
    discard <| Attachment.onRegion a.occupancy

def effect (a : Attachment) (cat : Catalog) : Operation → Attachment × Catalog
  | put segment now =>
    let desk := (Writing.Desk.put a.layout a.config segment now ⟨a.writers, cat⟩).2
    ({ a with writers := desk.writers }, desk.cat)
  | removeFlow flow => ({ a with writers := a.writers.erase flow }, cat)
  | sweep now =>
    ({ a with writers := Sweep.keepFresh a.writers now a.config.writerFlowTimeout },
      cat.swept a.config.blockIdleTimeout now)
  | nextMarker now =>
    ({ a with rotation := (Item.turn (a.view now) (cat.rotated a.rotation) a.rotation).2 }, cat)
  | erase ref _ => (a, cat.erase ref)
  | firstFrom .. | next .. | occupancy => (a, cat)

def effects (a : Attachment) (cat : Catalog) (operations : List Operation) : Attachment × Catalog :=
  operations.foldl (fun (a, cat) operation => operation.effect a cat) (a, cat)

theorem layout_effect (a : Attachment) (cat : Catalog) (operation : Operation) :
    (operation.effect a cat).1.layout = a.layout := by
  cases operation <;> rfl

theorem handle_effect (a : Attachment) (cat : Catalog) (operation : Operation) :
    (operation.effect a cat).1.handle = a.handle := by
  cases operation <;> rfl

theorem config_effect (a : Attachment) (cat : Catalog) (operation : Operation) :
    (operation.effect a cat).1.config = a.config := by
  cases operation <;> rfl

variable {a : Attachment} {r : Region} {cat : Catalog}

theorem viewing_ok {α : Type} {now : Micros} {work : View → Access α} {answer : α} {r' : Region}
    (ran : work (a.view now) r = .ok answer r') : viewing now work (a, r) = .ok () (a, r') := by
  have onRegion : Attachment.onRegion (work (a.view now)) (a, r) = .ok answer (a, r') := by
    simp only [Attachment.onRegion, Work.onPart, ran]
  rw [viewing, Work.bind_ok (Work.get_run _)]
  exact Work.map_ok onRegion

theorem work_run (carries : Carries a.layout r cat) (operation : Operation) :
    ∃ r', operation.work (a, r) = .ok () ((operation.effect a cat).1, r') ∧
      Carries a.layout r' (operation.effect a cat).2 := by
  cases operation with
  | put segment now =>
    obtain ⟨r', ran, carries'⟩ := Attachment.put_run carries segment now
    exact ⟨r', Work.map_ok ran, carries'⟩
  | removeFlow flow => exact ⟨r, rfl, carries⟩
  | sweep now =>
    obtain ⟨r', ran, carries'⟩ := Attachment.sweep_run carries now
    exact ⟨r', Work.map_ok ran, carries'⟩
  | nextMarker now => exact ⟨r, Work.map_ok (Attachment.nextMarker_run carries now), carries⟩
  | firstFrom key now =>
    exact ⟨r, (@Operation.viewing_ok _ _ _ _ (Reading.firstFrom · key))
      (Reading.firstFrom_run (v := a.view now) carries key), carries⟩
  | next ref now =>
    exact ⟨r, (@Operation.viewing_ok _ _ _ _ (Reading.next · ref))
      (Reading.next_run (v := a.view now) carries ref), carries⟩
  | erase ref now =>
    obtain ⟨r', ran, carries'⟩ := Reading.erase_run (v := a.view now) carries ref
    exact ⟨r', (@Operation.viewing_ok _ _ _ _ (Reading.erase · ref)) ran, carries'⟩
  | occupancy =>
    obtain ⟨answer, ran, _⟩ := Attachment.occupancy_run carries
    have onRegion : Attachment.onRegion a.occupancy (a, r) = .ok answer (a, r) := by
      simp only [Attachment.onRegion, Work.onPart, ran]
    refine ⟨r, ?_, carries⟩
    rw [work, Work.bind_ok (Work.get_run _)]
    exact Work.map_ok onRegion

end Operation

/-- A run is good throughout just if no step of it breaks that. What is fit for the steps to come stays so
until one breaks it. -/
theorem good_throughout_iff {σ α : Type} {step : σ → α → σ} {Good : σ → Prop} {Breaks : σ → α → Prop}
    (Fit : σ → List α → Prop) (good : ∀ {s rest}, Fit s rest → Good s)
    (broken : ∀ {s first rest}, Fit s (first :: rest) → Breaks s first → ¬ Good (step s first))
    (kept : ∀ {s first rest}, Fit s (first :: rest) → ¬ Breaks s first → Fit (step s first) rest)
    {s : σ} {steps : List α} (fit : Fit s steps) :
    (∀ count, Good ((steps.take count).foldl step s)) ↔
      ∀ count next, steps[count]? = some next → ¬ Breaks ((steps.take count).foldl step s) next := by
  induction steps generalizing s with
  | nil =>
    refine iff_of_true (fun count => ?_) fun count next listed => ?_
    · rw [List.take_nil]
      exact good fit
    · cases listed
  | cons first rest ih =>
    by_cases breaks : Breaks s first
    · exact iff_of_false (fun all => broken fit breaks (all 1)) fun none => none 0 first rfl breaks
    · have later := ih (kept fit breaks)
      constructor
      · intro all count next listed
        cases count with
        | zero =>
          obtain rfl := Option.some.inj listed
          exact breaks
        | succ count => exact later.mp (fun count => all (count + 1)) count next listed
      · intro none count
        cases count with
        | zero => exact good fit
        | succ count => exact later.mpr (fun count => none (count + 1)) count

/-- The bytes of a region, and the handles attached to it. -/
structure Commons where
  bytes : SparseBytes
  handles : List Attachment

namespace Commons

/-- What happens at a region: another handle is attached, or one of them does something. -/
inductive Move where
  | attach (handle : RegionHandle) (config : StoreConfig)
  | operate (index : Nat) (operation : Operation)

/-- One move. What an operation that fails has changed stays changed. -/
def step (c : Commons) : Move → Commons
  | .attach handle config =>
    match Attachment.attach config ⟨handle, c.bytes⟩ with
    | .ok a region => ⟨region.bytes, c.handles ++ [a]⟩
    | .error _ region => ⟨region.bytes, c.handles⟩
  | .operate index operation =>
    match c.handles[index]? with
    | none => c
    | some a =>
      match operation.work (a, ⟨a.handle, c.bytes⟩) with
      | .ok _ (a, region) => ⟨region.bytes, c.handles.set index a⟩
      | .error _ (a, region) => ⟨region.bytes, c.handles.set index a⟩

def run (c : Commons) (moves : List Move) : Commons := moves.foldl step c

theorem run_concat (c : Commons) (moves : List Move) (move : Move) :
    c.run (moves ++ [move]) = (c.run moves).step move := List.foldl_concat ..

theorem run_take_succ {c : Commons} {moves : List Move} {count : Nat} {move : Move}
    (here : moves[count]? = some move) :
    c.run (moves.take (count + 1)) = (c.run (moves.take count)).step move := by
  rw [List.take_add_one, here, Option.toList_some, run_concat]

/-- A region just formatted, with the handle that did it. A region has as many bytes as its handle
says. -/
inductive Fresh : Commons → Prop
  | format {config : StoreConfig} {region region' : Region} {a : Attachment}
      (there : region.handle.length ≤ region.bytes.size)
      (made : Attachment.format config region = .ok a region') : Fresh ⟨region'.bytes, [a]⟩

/-- A region that handles have shared since it was formatted. -/
def Reachable (c : Commons) : Prop := ∃ start, Fresh start ∧ ∃ moves, c = start.run moves

theorem Fresh.reachable {c : Commons} (fresh : c.Fresh) : c.Reachable := ⟨c, fresh, [], rfl⟩

theorem Reachable.step {c : Commons} (reached : c.Reachable) (move : Move) :
    (c.step move).Reachable := by
  obtain ⟨start, fresh, moves, rfl⟩ := reached
  exact ⟨start, fresh, moves ++ [move], (run_concat start moves move).symm⟩

/-- A handle in order for stores of a layout. -/
structure Tidy (l : Layout) (a : Attachment) : Prop where
  layout : a.layout = l
  long : l.required ≤ a.handle.length
  aimed : WriterFlows.Aimed a.writers

/-- A region that carries a catalog in order, and handles in order for it. -/
structure Carrying (l : Layout) (c : Commons) (cat : Catalog) : Prop where
  carries : Carries l ⟨⟨l.required, .memory 0⟩, c.bytes⟩ cat
  sound : cat.Sound
  tidy : ∀ a ∈ c.handles, Tidy l a

theorem Tidy.effect {l : Layout} {a : Attachment} {cat : Catalog} (tidy : Tidy l a)
    (ordered : cat.Ordered l) (sound : cat.Sound) (operation : Operation) :
    Tidy l (operation.effect a cat).1 ∧ (operation.effect a cat).2.Sound := by
  obtain ⟨rfl, long, aimed⟩ := tidy
  have layout := operation.layout_effect a cat
  have handle := operation.handle_effect a cat
  suffices kept : WriterFlows.Aimed (operation.effect a cat).1.writers ∧
      (operation.effect a cat).2.Sound from ⟨⟨layout, by rw [handle]; exact long, kept.1⟩, kept.2⟩
  cases operation with
  | put segment now =>
    obtain ⟨count, gains⟩ := Writing.Desk.Fit.put_spec (l := a.layout) (d := ⟨a.writers, cat⟩)
      ⟨ordered, sound, aimed⟩
    exact ⟨gains.fit.aimed, gains.fit.sound⟩
  | removeFlow flow => exact ⟨aimed.erase flow, sound⟩
  | sweep now => exact ⟨aimed.keepFresh now _, sound.swept _ now⟩
  | erase ref now => exact ⟨aimed, sound.erase ref⟩
  | nextMarker now => exact ⟨aimed, sound⟩
  | firstFrom key now => exact ⟨aimed, sound⟩
  | next ref now => exact ⟨aimed, sound⟩
  | occupancy => exact ⟨aimed, sound⟩

theorem carrying_of_format {region region' : Region} {a : Attachment} {config : StoreConfig}
    (there : region.handle.length ≤ region.bytes.size)
    (made : Attachment.format config region = .ok a region') :
    Carrying a.layout ⟨region'.bytes, [a]⟩ .empty := by
  obtain ⟨_, _, same, long, carries⟩ := Attachment.format_ok there made
  refine ⟨carries.through (Nat.le_refl _), .empty, fun other attached => ?_⟩
  obtain rfl := List.mem_singleton.mp attached
  refine ⟨rfl, ?_, ?_⟩
  · rw [same]
    exact long
  · rw [same]
    exact .empty

theorem Fresh.carrying {c : Commons} (fresh : c.Fresh) : ∃ l, Carrying l c .empty := by
  obtain ⟨there, made⟩ := fresh
  exact ⟨_, carrying_of_format there made⟩

theorem Fresh.of_config {config : StoreConfig} {l : Layout} (valid : config.validate = .ok ())
    (divided : Attachment.layoutFor config = .ok l) :
    ∃ c : Commons, c.Fresh ∧ c.handles = [.fresh ⟨l.required, .memory 0⟩ l config] ∧
      Carrying l c .empty := by
  obtain ⟨region, made, _, _⟩ := Attachment.format_run (r := ⟨⟨l.required, .memory 0⟩,
    .zeros l.required⟩) valid divided ⟨Nat.le_refl _, Nat.le_refl _⟩
  exact ⟨_, .format (Nat.le_refl _) made, rfl, carrying_of_format (Nat.le_refl _) made⟩

theorem Carrying.seen {l : Layout} {c : Commons} {cat : Catalog} (carrying : Carrying l c cat)
    {a : Attachment} (attached : a ∈ c.handles) : Carries a.layout ⟨a.handle, c.bytes⟩ cat := by
  obtain ⟨rfl, long, _⟩ := carrying.tidy a attached
  exact carrying.carries.through long

theorem Carrying.replace {l : Layout} {c : Commons} {cat cat' : Catalog} (carrying : Carrying l c cat)
    {a a' : Attachment} {r' : Region} (carries' : Carries a.layout r' cat') (sound : cat'.Sound)
    (same : a.layout = l) (tidy : Tidy l a') (index : Nat) :
    Carrying l ⟨r'.bytes, c.handles.set index a'⟩ cat' := by
  rw [same] at carries'
  refine ⟨carries'.through (Nat.le_refl _), sound, fun other present => ?_⟩
  rcases List.mem_or_eq_of_mem_set present with old | rfl
  · exact carrying.tidy other old
  · exact tidy

theorem Carrying.operate {l : Layout} {c : Commons} {cat : Catalog} (carrying : Carrying l c cat)
    {index : Nat} {a : Attachment} (attached : c.handles[index]? = some a) (operation : Operation) :
    ∃ bytes, c.step (.operate index operation) =
        ⟨bytes, c.handles.set index (operation.effect a cat).1⟩ ∧
      Carrying l (c.step (.operate index operation)) (operation.effect a cat).2 := by
  have member := List.mem_of_getElem? attached
  obtain ⟨r', ran, carries'⟩ := Operation.work_run (carrying.seen member) operation
  have tidy := (carrying.tidy a member).effect carrying.carries.ordered carrying.sound operation
  have stepped : c.step (.operate index operation) =
      ⟨r'.bytes, c.handles.set index (operation.effect a cat).1⟩ := by
    simp only [step, attached, ran]
  refine ⟨r'.bytes, stepped, ?_⟩
  rw [stepped]
  exact carrying.replace carries' tidy.2 (carrying.tidy a member).layout tidy.1 index

theorem Carrying.attach {l : Layout} {c : Commons} {cat : Catalog} (carrying : Carrying l c cat)
    (handle : RegionHandle) (config : StoreConfig) :
    (c.step (.attach handle config)).bytes = c.bytes ∧
      Carrying l (c.step (.attach handle config)) cat := by
  rcases (@Attachment.attach_ok _ _ handle _ _ config) carrying.carries with
    ⟨fault, failed⟩ | ⟨config', found, _, long⟩
  · simp only [Commons.step, failed, true_and]
    exact carrying
  · simp only [Commons.step, found, true_and]
    refine ⟨carrying.carries, carrying.sound, fun other present => ?_⟩
    rcases List.mem_append.mp present with old | new
    · exact carrying.tidy other old
    · obtain rfl := List.mem_singleton.mp new
      exact ⟨rfl, long, .empty⟩

theorem Carrying.step {l : Layout} {c : Commons} {cat : Catalog} (carrying : Carrying l c cat)
    (move : Move) : ∃ cat', Carrying l (c.step move) cat' := by
  cases move with
  | attach handle config => exact ⟨cat, (carrying.attach handle config).2⟩
  | operate index operation =>
    cases attached : c.handles[index]? with
    | none => exact ⟨cat, by simpa only [Commons.step, attached] using carrying⟩
    | some a =>
      obtain ⟨_, _, carrying'⟩ := carrying.operate attached operation
      exact ⟨_, carrying'⟩

theorem Carrying.run {l : Layout} {c : Commons} {cat : Catalog} (carrying : Carrying l c cat)
    (moves : List Move) : ∃ cat', Carrying l (c.run moves) cat' := by
  induction moves generalizing c cat with
  | nil => exact ⟨cat, carrying⟩
  | cons move rest ih =>
    obtain ⟨next, carrying'⟩ := carrying.step move
    exact ih carrying'

theorem attached_of_alone {c : Commons} {a : Attachment} (alone : c.handles = [a]) : c.handles[0]? = some a := by
  rw [alone]
  rfl

theorem Carrying.alone {l : Layout} {c : Commons} {cat : Catalog} (carrying : Carrying l c cat)
    {a : Attachment} (alone : c.handles = [a]) (operations : List Operation) :
    (c.run (operations.map (.operate 0))).handles = [(Operation.effects a cat operations).1] ∧
      Carrying l (c.run (operations.map (.operate 0))) (Operation.effects a cat operations).2 := by
  induction operations generalizing c cat a with
  | nil => exact ⟨alone, carrying⟩
  | cons operation rest ih =>
    obtain ⟨bytes, stepped, carrying'⟩ := carrying.operate (attached_of_alone alone) operation
    refine ih carrying' ?_
    rw [stepped, alone]
    rfl

theorem Reachable.carrying {c : Commons} (reached : c.Reachable) :
    ∃ l cat, Carrying l c cat := by
  obtain ⟨start, fresh, moves, rfl⟩ := reached
  obtain ⟨l, carrying⟩ := fresh.carrying
  exact ⟨l, carrying.run moves⟩

end Commons

end Reassembly
