import Reassembly.Proofs.Commons

/-!
What the user of a handle is told. Every operation answers with a value or fails; on a region that
carries a catalog none fails, and each answer is a function of what the handle knows and of the
catalog. So two regions that carry the same catalog cannot be told apart by what their handles say.
-/

namespace Reassembly

open Store Reading Writing

inductive Answer where
  | attached (layout : Layout) (config : StoreConfig)
  | put (outcome : Outcome)
  | removed (known : Bool)
  | closed (count : Nat)
  | block (found : Option Stored)
  | erased (found : Bool)
  | occupancy (found : Occupancy)
  | failed (fault : Fault)
  /-- There is no such handle. -/
  | nothing

namespace Operation

def viewed {α : Type} (now : Micros) (work : View → Access α) (told : α → Answer) :
    Attached Answer := do
  let (a, _) ← get
  told <$> Attachment.onRegion (work (a.view now))

/-- The operation at work, with what it answers. -/
def answer : Operation → Attached Answer
  | put segment now => .put <$> Attachment.put segment now
  | removeFlow flow => fun (a, region) =>
    .ok (.removed (a.removeFlow flow).1) ((a.removeFlow flow).2, region)
  | sweep now => .closed <$> Attachment.sweep now
  | nextMarker now => .block <$> Attachment.nextMarker now
  | firstFrom key now => viewed now (Reading.firstFrom · key) .block
  | next ref now => viewed now (Reading.next · ref) .block
  | erase ref now => viewed now (Reading.erase · ref) .erased
  | occupancy => do
    let (a, _) ← get
    .occupancy <$> Attachment.onRegion a.occupancy

def reply (a : Attachment) (cat : Catalog) : Operation → Answer
  | put segment now =>
    .put (Writing.Desk.put a.layout a.config segment now ⟨a.writers, cat⟩).1
  | removeFlow flow => .removed (a.writers.contains flow)
  | sweep now => .closed (cat.items.countP (Item.isIdle a.config.blockIdleTimeout now))
  | nextMarker now =>
    .block ((Item.turn (a.view now) (cat.rotated a.rotation) a.rotation).1.map
      (Item.stored (a.view now)))
  | firstFrom key now => .block ((cat.firstFrom? key).map (Item.stored (a.view now)))
  | next ref now => .block ((cat.next? ref).map (Item.stored (a.view now)))
  | erase ref _ => .erased (cat.find? ref).isSome
  | occupancy =>
    let entries := UInt32.ofNat cat.items.length
    .occupancy ⟨entries, a.layout.maxBlocks - entries, a.layout.maxBlocks, a.layout.blockCapacity,
      a.writers.size⟩

variable {a : Attachment} {r : Region} {cat : Catalog}

theorem viewed_ok {α : Type} {now : Micros} {work : View → Access α} {told : α → Answer} {result : α}
    {r' : Region} (ran : work (a.view now) r = .ok result r') :
    viewed now work told (a, r) = .ok (told result) (a, r') := by
  have onRegion : Attachment.onRegion (work (a.view now)) (a, r) = .ok result (a, r') := by
    simp only [Attachment.onRegion, Work.onPart, ran]
  rw [viewed, Work.bind_ok (Work.get_run _)]
  exact Work.map_ok onRegion

theorem occupancy_eq (carries : Carries a.layout r cat) :
    a.occupancy r = .ok ⟨UInt32.ofNat cat.items.length,
      a.layout.maxBlocks - UInt32.ofNat cat.items.length, a.layout.maxBlocks, a.layout.blockCapacity,
      a.writers.size⟩ r := by
  have count : cat.items.length = (Catalog.countersIn r.bytes).entryCount.toNat := carries.count
  have entries : (Catalog.countersIn r.bytes).entryCount = UInt32.ofNat cat.items.length := by
    rw [count, UInt32.ofNat_toNat]
  have ran := @Store.Carries.run_ok _ _ _ carries _
    (fun held => .ok (⟨held.counters.entryCount, a.layout.maxBlocks - held.counters.entryCount,
      a.layout.maxBlocks, a.layout.blockCapacity, a.writers.size⟩ : Occupancy) held) _
    ⟨r, Catalog.countersIn r.bytes⟩ rfl
  dsimp only at ran
  rw [entries] at ran
  exact ran

theorem answer_run (carries : Carries a.layout r cat) (operation : Operation) :
    ∃ r', operation.answer (a, r) = .ok (operation.reply a cat) ((operation.effect a cat).1, r') ∧
      Carries a.layout r' (operation.effect a cat).2 := by
  cases operation with
  | put segment now =>
    obtain ⟨r', ran, carries'⟩ := Attachment.put_run carries segment now
    exact ⟨r', Work.map_ok ran, carries'⟩
  | removeFlow flow => exact ⟨r, rfl, carries⟩
  | sweep now =>
    obtain ⟨r', ran, carries'⟩ := Attachment.sweep_run carries now
    exact ⟨r', Work.map_ok ran, carries'⟩
  | nextMarker now => exact ⟨r, Work.map_ok (Attachment.nextMarker_run carries now), carries⟩
  | firstFrom key now =>
    exact ⟨r, (@viewed_ok _ _ _ _ (Reading.firstFrom · key) _ _ _)
      (Reading.firstFrom_run (v := a.view now) carries key), carries⟩
  | next ref now =>
    exact ⟨r, (@viewed_ok _ _ _ _ (Reading.next · ref) _ _ _)
      (Reading.next_run (v := a.view now) carries ref), carries⟩
  | erase ref now =>
    obtain ⟨r', ran, carries'⟩ := Reading.erase_run (v := a.view now) carries ref
    exact ⟨r', (@viewed_ok _ _ _ _ (Reading.erase · ref) _ _ _) ran, carries'⟩
  | occupancy =>
    have onRegion : Attachment.onRegion a.occupancy (a, r) = .ok ⟨UInt32.ofNat cat.items.length,
        a.layout.maxBlocks - UInt32.ofNat cat.items.length, a.layout.maxBlocks,
        a.layout.blockCapacity, a.writers.size⟩ (a, r) := by
      simp only [Attachment.onRegion, Work.onPart, occupancy_eq carries]
    refine ⟨r, ?_, carries⟩
    rw [answer, Work.bind_ok (Work.get_run _)]
    exact Work.map_ok onRegion

end Operation

def Attachment.knowledge (a : Attachment) : Attachment := { a with handle := ⟨0, .memory 0⟩ }

@[simp] theorem Attachment.layout_knowledge (a : Attachment) : a.knowledge.layout = a.layout := rfl

theorem Operation.reply_knowledge (a : Attachment) (cat : Catalog) (operation : Operation) :
    operation.reply a.knowledge cat = operation.reply a cat := by
  cases operation <;> rfl

theorem Operation.effect_knowledge (a : Attachment) (cat : Catalog) (operation : Operation) :
    operation.effect a.knowledge cat =
      ((operation.effect a cat).1.knowledge, (operation.effect a cat).2) := by
  cases operation <;> rfl

def Attachment.welcome (l : Layout) (handle : RegionHandle) (config : StoreConfig) :
    Except Fault Attachment :=
  if handle.length < headerSize then .error (.regionTooSmall headerSize handle.length)
  else if handle.length < l.required then .error (.regionTooSmall l.required handle.length)
  else
    let config := { config with blockCapacity := l.blockCapacity, maxBlocks := l.maxBlocks }
    match config.validate with
    | .error fault => .error fault
    | .ok _ => .ok (.fresh handle l config)

theorem Attachment.attach_eq {l : Layout} {own : RegionHandle} {bytes : SparseBytes} {cat : Catalog}
    (carries : Carries l ⟨own, bytes⟩ cat) (handle : RegionHandle) (config : StoreConfig) :
    Attachment.attach config ⟨handle, bytes⟩ =
      (liftM (Attachment.welcome l handle config) : Access Attachment) ⟨handle, bytes⟩ := by
  have found := (@Carries.attach_eq _ _ handle _ _) carries
  rw [welcome, attach]
  by_cases short : handle.length < headerSize
  · rw [if_pos short] at found ⊢
    exact Work.bind_error found
  rw [if_neg short] at found ⊢
  by_cases cramped : handle.length < l.required
  · rw [if_pos cramped] at found ⊢
    exact Work.bind_error found
  rw [if_neg cramped] at found ⊢
  rw [Work.bind_ok found]
  dsimp only
  cases StoreConfig.validate
      { config with blockCapacity := l.blockCapacity, maxBlocks := l.maxBlocks } with
  | error fault => rfl
  | ok checked => rfl

namespace Commons

def told (c : Commons) : Move → Answer
  | .attach handle config =>
    match Attachment.attach config ⟨handle, c.bytes⟩ with
    | .ok a _ => .attached a.layout a.config
    | .error fault _ => .failed fault
  | .operate index operation =>
    match c.handles[index]? with
    | none => .nothing
    | some a =>
      match operation.answer (a, ⟨a.handle, c.bytes⟩) with
      | .ok answer _ => answer
      | .error fault _ => .failed fault

def answers (c : Commons) : List Move → List Answer
  | [] => []
  | move :: rest => c.told move :: (c.step move).answers rest

variable {l : Layout} {c c' : Commons} {cat : Catalog}

theorem Carrying.told_operate (carrying : Carrying l c cat) {index : Nat} {a : Attachment}
    (attached : c.handles[index]? = some a) (operation : Operation) :
    c.told (.operate index operation) = operation.reply a cat := by
  obtain ⟨_, ran, _⟩ := operation.answer_run (carrying.seen (List.mem_of_getElem? attached))
  simp only [told, attached, ran]

theorem alike_at (same : c.handles.map Attachment.knowledge = c'.handles.map Attachment.knowledge)
    (index : Nat) : c.handles[index]? = none ∧ c'.handles[index]? = none ∨
      ∃ a a', c.handles[index]? = some a ∧ c'.handles[index]? = some a' ∧ a'.knowledge = a.knowledge := by
  have known := congrArg (·[index]?) same
  simp only [List.getElem?_map] at known
  cases here : c.handles[index]? with
  | none =>
    rw [here, Option.map_none] at known
    exact .inl ⟨rfl, Option.map_eq_none_iff.mp known.symm⟩
  | some a =>
    rw [here, Option.map_some] at known
    obtain ⟨a', there, alike⟩ := Option.map_eq_some_iff.mp known.symm
    exact .inr ⟨a, a', rfl, there, alike⟩

theorem Carrying.told_eq (first : Carrying l c cat) (second : Carrying l c' cat)
    (same : c.handles.map Attachment.knowledge = c'.handles.map Attachment.knowledge) (move : Move) :
    c.told move = c'.told move := by
  cases move with
  | attach handle config =>
    simp only [told, Attachment.attach_eq first.carries, Attachment.attach_eq second.carries]
    cases Attachment.welcome l handle config <;> rfl
  | operate index operation =>
    rcases alike_at same index with ⟨here, there⟩ | ⟨a, a', here, there, alike⟩
    · simp only [told, here, there]
    · rw [first.told_operate here, second.told_operate there, ← operation.reply_knowledge a, ← alike,
        operation.reply_knowledge]

theorem Carrying.step_alike (first : Carrying l c cat) (second : Carrying l c' cat)
    (same : c.handles.map Attachment.knowledge = c'.handles.map Attachment.knowledge) (move : Move) :
    ∃ cat', Carrying l (c.step move) cat' ∧ Carrying l (c'.step move) cat' ∧
      (c.step move).handles.map Attachment.knowledge =
        (c'.step move).handles.map Attachment.knowledge := by
  cases move with
  | attach handle config =>
    refine ⟨cat, (first.attach handle config).2, (second.attach handle config).2, ?_⟩
    simp only [Commons.step, Attachment.attach_eq first.carries, Attachment.attach_eq second.carries]
    cases Attachment.welcome l handle config with
    | error fault => exact same
    | ok a => 
      show (c.handles ++ [a]).map _ = (c'.handles ++ [a]).map _
      rw [List.map_append, List.map_append, same]
  | operate index operation =>
    rcases alike_at same index with ⟨here, there⟩ | ⟨a, a', here, there, alike⟩
    · simp only [Commons.step, here, there]
      exact ⟨cat, first, second, same⟩
    · obtain ⟨_, stepped, after⟩ := first.operate here operation
      obtain ⟨_, stepped', after'⟩ := second.operate there operation
      have effects : ((operation.effect a cat).1.knowledge, (operation.effect a cat).2) =
          ((operation.effect a' cat).1.knowledge, (operation.effect a' cat).2) := by
        rw [← Operation.effect_knowledge, ← alike, Operation.effect_knowledge]
      obtain ⟨knows, leaves⟩ := Prod.mk.inj effects
      rw [← leaves] at after'
      refine ⟨_, after, after', ?_⟩
      rw [stepped, stepped']
      dsimp only
      rw [List.map_set, List.map_set, same, knows]

theorem Carrying.answers_eq (first : Carrying l c cat) (second : Carrying l c' cat)
    (same : c.handles.map Attachment.knowledge = c'.handles.map Attachment.knowledge)
    (moves : List Move) : c.answers moves = c'.answers moves := by
  induction moves generalizing c c' cat with
  | nil => rfl
  | cons move rest ih =>
    obtain ⟨_, first', second', same'⟩ := first.step_alike second same move
    rw [answers, answers, first.told_eq second same move, ih first' second' same']

end Commons

end Reassembly
