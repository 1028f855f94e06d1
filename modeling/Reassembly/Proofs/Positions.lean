import Reassembly.Proofs.Routing

/-!
Where the shards of a team stand with their flows. Routing a marker changes no position that there is,
and leaves the flow of the marker owned; no two shards own the same flow, since the router knows whom it
gave each flow to.
-/

namespace Reassembly

namespace FlowId

variable {β : Type} (entries : Std.ExtTreeMap FlowId β) (flow other : FlowId)

theorem getElem?_insert (value : β) : (entries.insert flow value)[other]? =
    if flow = other then some value else entries[other]? := by
  rw [Std.ExtTreeMap.getElem?_insert]
  simp only [Std.LawfulEqCmp.compare_eq_iff_eq]

theorem getElem?_erase : (entries.erase flow)[other]? =
    if flow = other then none else entries[other]? := by
  rw [Std.ExtTreeMap.getElem?_erase]
  simp only [Std.LawfulEqCmp.compare_eq_iff_eq]

end FlowId

theorem ShardConfig.suits_iff {config : ShardConfig} {store : StoreConfig} :
    config.checkWriterTimeout store = .ok () ↔ store.writerFlowTimeout < config.flowTimeout := by
  rw [checkWriterTimeout]
  split
  · next shorter => exact iff_of_false nofun (UInt64.not_lt.mpr shorter)
  · next longer => exact iff_of_true rfl (UInt64.not_le.mp longer)

namespace Delivery

namespace Shard

variable (s : Shard) (marker : Stored) (now : Micros) (flow : FlowId)

theorem owns_eq : s.owns flow = s.flows[flow]?.isSome :=
  Std.ExtTreeMap.contains_eq_isSome_getElem?

theorem flows_claim : (s.claim marker now).2.flows[flow]? =
    s.flows[flow]?.or (if marker.flow = flow then some (.ofMarker marker now) else none) := by
  rw [claim]
  by_cases known : s.owns marker.flow = true
  · rw [if_pos known]
    split
    · next same =>
      rw [owns_eq, same] at known
      exact (Option.or_of_isSome known).symm
    · exact Option.or_none.symm
  · rw [if_neg known]
    dsimp only
    rw [FlowId.getElem?_insert]
    split
    · next same =>
      rw [owns_eq, same, Bool.not_eq_true, Option.isSome_eq_false_iff, Option.isNone_iff_eq_none]
        at known
      rw [known, Option.none_or]
    · exact Option.or_none.symm

theorem flowTimeout_claim : (s.claim marker now).2.flowTimeout = s.flowTimeout := by
  rw [claim]
  split
  · rfl
  · rfl

end Shard

namespace Team

def position? (t : Team) (index : Nat) (flow : FlowId) : Option Position :=
  t.shards[index]?.bind fun s => s.flows[flow]?

def Owns (t : Team) (flow : FlowId) : Prop := ∃ s ∈ t.shards.toList, s.owns flow = true

instance (t : Team) (flow : FlowId) : Decidable (t.Owns flow) :=
  inferInstanceAs (Decidable (∃ s ∈ t.shards.toList, s.owns flow = true))

def Assigned (t : Team) : Prop :=
  ∀ index flow, (t.position? index flow).isSome → t.router.assignments[flow]? = some index

variable {t : Team} {marker : Stored} {now : Micros} {index : Nat} {flow : FlowId}

theorem position?_manned {s : Shard} (manned : t.shards[index]? = some s) (flow : FlowId) :
    t.position? index flow = s.flows[flow]? := by
  rw [position?, manned, Option.bind_some]

theorem shard_checked (checked : ∀ index flow, (t.position? index flow).isSome → flow.raw.toNat < 0x80000000)
    {s : Shard} (manned : t.shards[index]? = some s) (flow : FlowId) (owned : s.owns flow = true) :
    flow.raw.toNat < 0x80000000 := by
  refine checked index flow ?_
  rw [position?_manned manned, ← Shard.owns_eq]
  exact owned

theorem owns_eq : t.owns index flow = (t.position? index flow).isSome := by
  rw [owns, position?]
  cases t.shards[index]? with
  | none => rfl
  | some s => exact s.owns_eq flow

theorem owns_iff : t.Owns flow ↔ ∃ index position, t.position? index flow = some position := by
  constructor
  · rintro ⟨s, listed, owned⟩
    obtain ⟨index, there⟩ := List.mem_iff_getElem?.mp listed
    rw [Array.getElem?_toList] at there
    rw [Shard.owns_eq, Option.isSome_iff_exists] at owned
    obtain ⟨position, known⟩ := owned
    exact ⟨index, position, by rw [position?, there]; exact known⟩
  · rintro ⟨index, position, known⟩
    obtain ⟨s, there, stands⟩ := Option.bind_eq_some_iff.mp known
    refine ⟨s, Array.mem_toList_iff.mpr (Array.mem_of_getElem? there), ?_⟩
    rw [Shard.owns_eq, stands]
    rfl

def turn (t : Team) : Nat := t.router.next.toNat % t.shards.size

/-- A marker of a flow that the shard it was given to still owns changes nothing; any other goes to the
next shard. -/
theorem routed_cases (t : Team) (marker : Stored) (now : Micros) :
    ((∃ owner, t.router.assignments[marker.flow]? = some owner ∧
      (t.position? owner marker.flow).isSome) ∧ t.routed now marker = t) ∨
    (∀ owner, t.router.assignments[marker.flow]? = some owner →
      t.position? owner marker.flow = none) ∧
      ((t.routed now marker).shards = t.shards.modify t.turn (fun s => (s.claim marker now).2) ∧
        (t.routed now marker).router.assignments =
          t.router.assignments.insert marker.flow t.turn) := by
  rw [routed, route]
  cases given : t.router.assignments[marker.flow]? with
  | none => exact .inr ⟨fun _ same => absurd same.symm (Option.some_ne_none _), rfl, rfl⟩
  | some owner =>
    cases known : (t.position? owner marker.flow).isSome with
    | true =>
      have kept : ((some owner).map (t.owns · marker.flow)).getD false = true := owns_eq.trans known
      refine .inl ⟨⟨owner, rfl, known⟩, ?_⟩
      rw [if_pos kept]
    | false =>
      refine .inr ⟨fun other same => ?_, ?_⟩
      · obtain rfl := Option.some.inj same
        exact Option.isNone_iff_eq_none.mp (Option.isSome_eq_false_iff.mp known)
      · have lost : ¬ ((some owner).map (t.owns · marker.flow)).getD false = true := by
          rw [Option.map_some, Option.getD_some, owns_eq, known]
          exact Bool.false_ne_true
        dsimp only
        rw [if_neg lost]
        exact ⟨rfl, rfl⟩

theorem position?_modify (t : Team) (shards : Array Shard) (place : Nat)
    (same : shards = t.shards.modify place fun s => (s.claim marker now).2) (router : Router) :
    (⟨router, shards⟩ : Team).position? index flow =
      if place = index ∧ marker.flow = flow ∧ index < t.shards.size then
        (t.position? index flow).or (some (.ofMarker marker now))
      else t.position? index flow := by
  subst same
  rw [position?, position?, Array.getElem?_modify]
  by_cases here : place = index
  · subst here
    rw [if_pos rfl]
    cases there : t.shards[place]? with
    | none =>
      have outside := Array.getElem?_eq_none_iff.mp there
      rw [if_neg (by omega)]
      rfl
    | some s =>
      have inside := (Array.getElem?_eq_some_iff.mp there).1
      rw [Option.map_some, Option.bind_some, Option.bind_some, Shard.flows_claim]
      split
      · next same => rw [if_pos ⟨rfl, same, inside⟩]
      · next other => rw [if_neg fun all => other all.2.1, Option.or_none]
  · rw [if_neg here, if_neg fun all => here all.1]

theorem routed_position (t : Team) (marker : Stored) (now : Micros) (index : Nat) (flow : FlowId) :
    (t.routed now marker).position? index flow = t.position? index flow ∨
      t.position? index flow = none ∧ marker.flow = flow ∧
        (t.routed now marker).position? index flow = some (.ofMarker marker now) := by
  rcases t.routed_cases marker now with ⟨_, same⟩ | ⟨_, shards, _⟩
  · rw [same]
    exact .inl rfl
  · have moved := (@Delivery.Team.position?_modify _ _ index flow) t _ t.turn shards
      (t.routed now marker).router
    rw [show (t.routed now marker).position? index flow = _ from moved]
    split
    · next here =>
      cases known : t.position? index flow with
      | none => exact .inr ⟨rfl, here.2.1, rfl⟩
      | some position => exact .inl rfl
    · exact .inl rfl

theorem routed_turn (manned : 0 < t.shards.size)
    (given : (t.routed now marker).shards = t.shards.modify t.turn fun s => (s.claim marker now).2) :
    ((t.routed now marker).position? t.turn marker.flow).isSome := by
  have moved := (@Delivery.Team.position?_modify _ _ t.turn marker.flow) t _ t.turn given
    (t.routed now marker).router
  rw [if_pos ⟨rfl, rfl, Nat.mod_lt _ manned⟩] at moved
  rw [show (t.routed now marker).position? t.turn marker.flow = _ from moved]
  cases t.position? t.turn marker.flow with
  | none => rfl
  | some position => rfl

theorem routed_owned (manned : 0 < t.shards.size) :
    ∃ index, ((t.routed now marker).position? index marker.flow).isSome := by
  rcases t.routed_cases marker now with ⟨⟨owner, _, owned⟩, same⟩ | ⟨_, given, _⟩
  · exact ⟨owner, by rw [same]; exact owned⟩
  · exact ⟨t.turn, routed_turn manned given⟩

theorem Assigned.routed (assigned : t.Assigned) (marker : Stored) (now : Micros) :
    (t.routed now marker).Assigned := by
  rcases t.routed_cases marker now with ⟨_, same⟩ | ⟨lost, shards, given⟩
  · rw [same]
    exact assigned
  · intro index flow owned
    have moved := (@Delivery.Team.position?_modify _ _ index flow) t _ t.turn shards
      (t.routed now marker).router
    rw [show (t.routed now marker).position? index flow = _ from moved] at owned
    rw [given, FlowId.getElem?_insert]
    by_cases same : marker.flow = flow
    · subst same
      rw [if_pos rfl]
      split at owned
      · next here => rw [here.1]
      · rw [lost index (assigned index _ owned)] at owned
        cases owned
    · rw [if_neg fun here => same here.2.1] at owned
      rw [if_neg same]
      exact assigned index flow owned

theorem position?_set {s : Shard} {place : Nat} (there : t.shards[place]? = some s) (after : Shard)
    (index : Nat) (flow : FlowId) :
    ({ t with shards := t.shards.setIfInBounds place after } : Team).position? index flow =
      if place = index then after.flows[flow]? else t.position? index flow := by
  have inside := (Array.getElem?_eq_some_iff.mp there).1
  rw [position?, position?, Array.getElem?_setIfInBounds, if_pos inside]
  split
  · exact Option.bind_some _ _
  · rfl

def Timed (timeout : Micros) (t : Team) : Prop := ∀ s ∈ t.shards, s.flowTimeout = timeout

theorem Timed.routed {timeout : Micros} (timed : t.Timed timeout) (marker : Stored) (now : Micros) :
    (t.routed now marker).Timed timeout := by
  rcases t.routed_cases marker now with ⟨_, same⟩ | ⟨_, shards, _⟩
  · rw [same]
    exact timed
  · intro s listed
    rw [shards] at listed
    obtain ⟨index, there⟩ := Array.mem_iff_getElem?.mp listed
    rw [Array.getElem?_modify] at there
    split at there
    · obtain ⟨old, known, rfl⟩ := Option.map_eq_some_iff.mp there
      rw [Shard.flowTimeout_claim]
      exact timed old (Array.mem_of_getElem? known)
    · exact timed s (Array.mem_of_getElem? there)

theorem size_routed (t : Team) (marker : Stored) (now : Micros) :
    (t.routed now marker).shards.size = t.shards.size := by
  rcases t.routed_cases marker now with ⟨_, same⟩ | ⟨_, shards, _⟩
  · rw [same]
  · rw [shards, Array.size_modify]

theorem shards_releaseWhenDue (t : Team) (now : Micros) :
    (t.releaseWhenDue now).2.shards = t.shards := by
  rw [releaseWhenDue]
  dsimp only
  split
  · rfl
  · rfl

theorem position?_of_shards {a b : Team} (same : a.shards = b.shards) (index : Nat) (flow : FlowId) :
    a.position? index flow = b.position? index flow := by
  rw [position?, position?, same]

theorem Assigned.releaseWhenDue (assigned : t.Assigned) (now : Micros) :
    (t.releaseWhenDue now).2.Assigned := by
  intro index flow owned
  rw [position?_of_shards (t.shards_releaseWhenDue now)] at owned
  have known := assigned index flow owned
  rw [Team.releaseWhenDue]
  dsimp only
  split
  · rw [release]
    dsimp only
    rw [Std.ExtTreeMap.getElem?_filter', known, Option.filter_some, if_pos (owns_eq.trans owned)]
  · exact known

variable (now) in
theorem routedAll_induction {motive : Team → Prop} (start : motive t)
    (step : ∀ (t : Team) (marker : Stored), motive t → motive (t.routed now marker))
    (markers : List Stored) : motive (markers.foldl (Team.routed now) t) := by
  induction markers generalizing t with
  | nil => exact start
  | cons marker rest ih => exact ih (step t marker start)

theorem Assigned.polled (assigned : t.Assigned) (now : Micros) (markers : List Stored) :
    (t.polled now markers).Assigned :=
  (routedAll_induction now (motive := Assigned) (t := t.notePoll now) assigned
    (fun _ marker before => before.routed marker now) markers).releaseWhenDue now

theorem Timed.polled {timeout : Micros} (timed : t.Timed timeout) (now : Micros)
    (markers : List Stored) : (t.polled now markers).Timed timeout := by
  rw [Timed, Team.polled, shards_releaseWhenDue]
  exact routedAll_induction now (motive := Timed timeout) (t := t.notePoll now) timed
    (fun _ marker before => before.routed marker now) markers

theorem size_polled (t : Team) (now : Micros) (markers : List Stored) :
    (t.polled now markers).shards.size = t.shards.size := by
  rw [polled, shards_releaseWhenDue]
  exact routedAll_induction now (motive := fun t' => t'.shards.size = t.shards.size)
    (t := t.notePoll now) rfl (fun _ marker same => (size_routed _ marker now).trans same) markers

/-- A poll keeps every position; a new one is that of a marker which it routed. -/
theorem polled_position (t : Team) (now : Micros) (markers : List Stored) (index : Nat)
    (flow : FlowId) :
    (t.polled now markers).position? index flow = t.position? index flow ∨
      t.position? index flow = none ∧ ∃ marker ∈ markers, marker.flow = flow ∧
        (t.polled now markers).position? index flow = some (.ofMarker marker now) := by
  rw [polled, position?_of_shards (shards_releaseWhenDue _ now)]
  change _ = (t.notePoll now).position? index flow ∨
    (t.notePoll now).position? index flow = none ∧ _
  generalize t.notePoll now = t
  induction markers generalizing t with
  | nil => exact .inl rfl
  | cons marker rest ih =>
    rw [List.foldl_cons]
    rcases ih (t.routed now marker) with same | ⟨fresh, later, listed, here, stands⟩
    · rw [same]
      rcases t.routed_position marker now index flow with old | ⟨fresh, here, stands⟩
      · exact .inl old
      · exact .inr ⟨fresh, marker, List.mem_cons_self, here, stands⟩
    · rcases t.routed_position marker now index flow with old | ⟨_, _, taken⟩
      · exact .inr ⟨old ▸ fresh, later, List.mem_cons_of_mem _ listed, here, stands⟩
      · rw [fresh] at taken
        cases taken

theorem polled_kept {position : Position} (known : t.position? index flow = some position) (now : Micros)
    (markers : List Stored) : (t.polled now markers).position? index flow = some position := by
  rcases t.polled_position now markers index flow with same | ⟨fresh, _⟩
  · exact same.trans known
  · rw [known] at fresh
    cases fresh

theorem polled_owned (manned : 0 < t.shards.size) {markers : List Stored} (listed : marker ∈ markers) :
    ∃ index, ((t.polled now markers).position? index marker.flow).isSome := by
  obtain ⟨front, back, rfl⟩ := List.append_of_mem listed
  have size := routedAll_induction now (motive := fun t' => t'.shards.size = t.shards.size)
    (t := t.notePoll now) rfl (fun _ marker same => (size_routed _ marker now).trans same) front
  obtain ⟨index, owned⟩ := routed_owned (t := front.foldl (Team.routed now) (t.notePoll now)) (by omega)
  refine ⟨index, ?_⟩
  rw [polled, position?_of_shards (shards_releaseWhenDue _ now), List.foldl_append, List.foldl_cons]
  exact routedAll_induction now (motive := fun t => (t.position? index marker.flow).isSome) owned
    (fun t other before => by
      rcases t.routed_position other now index marker.flow with same | ⟨_, _, stands⟩
      · rw [same]
        exact before
      · rw [stands]
        rfl) back

theorem ofConfig_ok {config : ShardConfig} (formed : ofConfig config = .ok t) :
    0 < t.shards.size ∧ t.Timed config.flowTimeout ∧ (∀ index flow, t.position? index flow = none) ∧
      t.router = { config } := by
  rw [ofConfig] at formed
  split at formed
  · cases formed
  · next some =>
    obtain rfl := Except.ok.inj formed
    refine ⟨?_, fun s listed => ?_, fun index flow => ?_, rfl⟩
    · rw [Array.size_map, Array.size_range]
      exact Nat.pos_of_ne_zero fun zero => some (UInt64.toNat_inj.mp zero)
    · obtain ⟨id, _, rfl⟩ := Array.mem_map.mp listed
      rfl
    · rw [position?]
      cases there : ((Array.range config.handlerCount.toNat).map
          fun id => Shard.fresh id config)[index]? with
      | none => rfl
      | some s =>
        obtain ⟨id, _, rfl⟩ := Array.mem_map.mp (Array.mem_of_getElem? there)
        exact Std.ExtTreeMap.getElem?_empty

theorem start_ok {config : ShardConfig} {store : StoreConfig} (started : start config store = .ok t) :
    store.writerFlowTimeout < config.flowTimeout ∧ 0 < t.shards.size ∧ t.Timed config.flowTimeout ∧
      (∀ index flow, t.position? index flow = none) ∧ t.router = { config } := by
  rw [start] at started
  cases valid : config.validate with
  | error fault =>
    rw [valid] at started
    cases started
  | ok checked =>
    cases suits : config.checkWriterTimeout store with
    | error fault =>
      rw [valid, suits] at started
      cases started
    | ok checked =>
      rw [valid, suits] at started
      exact ⟨ShardConfig.suits_iff.mp suits, ofConfig_ok started⟩

end Team

end Delivery

end Reassembly
