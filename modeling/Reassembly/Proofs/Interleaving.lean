import Mathlib.Logic.Function.Basic
import Reassembly.Proofs.Fates

/-!
A team whose members work at the same time. The router asks whether a flow is still owned, and pushes it
to a shard, in two separate steps; a shard copies its positions, drains the flows one by one, and settles
what it found, and between any two of these steps every other member may take its own. However the steps
fall, no flow has two owners, and what a cycle writes back neither loses a flow that came meanwhile nor
brings one back that is gone.
-/

namespace Reassembly.Delivery

open Store Reading Shard

/-! ### The steps -/

namespace Team

def attended (t : Team) (flow : FlowId) : Bool :=
  (t.router.assignments[flow]?.map (t.owns · flow)).getD false

/-- Gives the flow of a marker to the shard in turn, whoever owns it. -/
def handed (t : Team) (now : Micros) (marker : Stored) : Team where
  router := { t.router with
    next := t.router.next + 1
    assignments := t.router.assignments.insert marker.flow t.turn }
  shards := t.shards.modify t.turn fun s => (s.claim marker now).2

def remembering (t : Team) (assignments : Std.ExtTreeMap FlowId Nat) : Team :=
  { t with router := { t.router with assignments } }

def replacing (t : Team) (index : Nat) (s : Shard) : Team :=
  { t with shards := t.shards.setIfInBounds index s }

/-- Forgets whom a flow was given to, if that shard has dropped it. -/
def released (t : Team) (flow : FlowId) : Team :=
  if t.attended flow then t else t.remembering (t.router.assignments.erase flow)

end Team

/-- A drain cycle in progress: what of the copied positions is still to be drained, and the fates of the
flows that are. -/
structure Cycle where
  todo : List (FlowId × Position)
  fates : List Fate := []

namespace Cycle

def flows (cycle : Cycle) : List FlowId := cycle.todo.map (·.1) ++ cycle.fates.map (·.flow)

/-- A flow that was to be drained is, or the cycle ends with a fault and settles nothing. -/
def drained (cycle : Cycle) (timeout : Micros) (flow : FlowId) (now : Micros) :
    Except Fault Drained → Option Cycle
  | .error _ => none
  | .ok drained => some
      { todo := cycle.todo.filter (·.1 ≠ flow)
        fates := cycle.fates ++ [fateOf flow timeout now drained] }

end Cycle

/-- A team at work: the marker that the router found to be nobody's and has still to push, and the cycle
that each shard is in. A shard is in one cycle at a time. -/
structure Crew where
  team : Team
  pending : Option Stored := none
  cycles : Nat → Option Cycle := fun _ => none

namespace Crew

/-- What a member of a crew does without a break. Draining gives any result at all, as others change the
store at the same time. -/
inductive Move where
  | query (marker : Stored)
  | push (now : Micros)
  | release (flow : FlowId)
  | copy (index : Nat)
  | drain (index : Nat) (flow : FlowId) (now : Micros) (result : Except Fault Drained)
  | settle (index : Nat)

def cycling (c : Crew) (index : Nat) (cycle : Option Cycle) : Crew :=
  { c with cycles := Function.update c.cycles index cycle }

/-- What a move changes. A move that is nobody's next changes nothing. -/
def effect (c : Crew) : Move → Crew
  | .query marker =>
    if c.pending.isSome ∨ c.team.attended marker.flow then c else { c with pending := some marker }
  | .push now =>
    match c.pending with
    | none => c
    | some marker => { c with team := c.team.handed now marker, pending := none }
  | .release flow => if c.pending.isSome then c else { c with team := c.team.released flow }
  | .copy index =>
    match c.cycles index, c.team.shards[index]? with
    | none, some s => c.cycling index (some ⟨s.flows.toList, []⟩)
    | _, _ => c
  | .drain index flow now result =>
    match c.cycles index, c.team.shards[index]? with
    | some cycle, some s =>
      if flow ∈ cycle.todo.map (·.1) then
        c.cycling index (cycle.drained s.flowTimeout flow now result)
      else c
    | _, _ => c
  | .settle index =>
    match c.cycles index, c.team.shards[index]? with
    | some ⟨[], fates⟩, some s =>
      { c.cycling index none with team := c.team.replacing index (s.settleAll fates) }
    | _, _ => c

def run (c : Crew) (moves : List Move) : Crew := moves.foldl effect c

/-- The cycle that a shard is in goes on all through the moves. -/
def underway (index : Nat) : List Move → Crew → Bool
  | [], c => (c.cycles index).isSome
  | move :: rest, c => (c.cycles index).isSome && underway index rest (c.effect move)

@[simp] theorem run_nil (c : Crew) : c.run [] = c := rfl

@[simp] theorem run_cons (c : Crew) (move : Move) (rest : List Move) :
    c.run (move :: rest) = (c.effect move).run rest := rfl

theorem run_append (c : Crew) (front back : List Move) : c.run (front ++ back) = (c.run front).run back :=
  List.foldl_append

end Crew

/-! ### Undisturbed, the steps are those of a poll and of a round -/

namespace Team

theorem routed_eq (t : Team) (now : Micros) (marker : Stored) :
    t.routed now marker = if t.attended marker.flow then t else t.handed now marker := by
  unfold routed route attended
  dsimp only
  split
  · rfl
  · rfl

theorem assignments_released (t : Team) (flow other : FlowId) :
    (t.released flow).router.assignments[other]? =
      if flow = other then t.router.assignments[other]?.filter (t.owns · other)
      else t.router.assignments[other]? := by
  unfold released
  split
  · next attended =>
    split
    · next same =>
      subst same
      unfold Team.attended at attended
      cases given : t.router.assignments[flow]? with
      | none => rfl
      | some index =>
        rw [given] at attended
        exact (if_pos attended).symm
    · rfl
  · next left =>
    unfold remembering
    dsimp only
    rw [FlowId.getElem?_erase]
    split
    · next same =>
      subst same
      unfold Team.attended at left
      cases given : t.router.assignments[flow]? with
      | none => rfl
      | some index =>
        rw [given] at left
        exact (if_neg left).symm
    · rfl

theorem released_eq (t : Team) (flow : FlowId) :
    t.released flow = t.remembering (t.released flow).router.assignments := by
  unfold released
  split
  · rfl
  · rfl

theorem owns_released (t : Team) (flow : FlowId) : (t.released flow).owns = t.owns := by
  rw [released_eq]
  rfl

theorem foldl_released (t : Team) (flows : List FlowId) :
    flows.foldl released t = t.remembering
      (t.router.assignments.filter fun flow index => flow ∉ flows || t.owns index flow) := by
  induction flows generalizing t with
  | nil =>
    have all : t.router.assignments.filter (fun flow index => flow ∉ ([] : List FlowId) ||
        t.owns index flow) = t.router.assignments := by
      apply Std.ExtTreeMap.ext_getElem?
      intro other
      rw [Std.ExtTreeMap.getElem?_filter']
      simp only [List.not_mem_nil, not_false_eq_true, decide_true, Bool.true_or]
      cases t.router.assignments[other]? with
      | none => rfl
      | some index => rfl
    rw [all]
    rfl
  | cons flow rest ih =>
    rw [List.foldl_cons, ih, owns_released, released_eq]
    change t.remembering _ = t.remembering _
    congr 1
    apply Std.ExtTreeMap.ext_getElem?
    intro other
    rw [Std.ExtTreeMap.getElem?_filter', Std.ExtTreeMap.getElem?_filter']
    change ((t.released flow).router.assignments[other]?).filter _ = _
    rw [assignments_released]
    by_cases here : flow = other
    · subst here
      rw [if_pos rfl, Option.filter_filter]
      congr 1
      funext index
      cases t.owns index flow <;> simp
    · rw [if_neg here]
      congr 1
      funext index
      simp [show other ≠ flow from fun equal => here equal.symm]

end Team

namespace Crew

variable {c : Crew} {index : Nat} {s : Shard}

theorem cycles_cycling (place : Nat) (cycle : Option Cycle) :
    (c.cycling place cycle).cycles index = if index = place then cycle else c.cycles index :=
  Function.update_apply ..

theorem cycles_cycling_self (cycle : Option Cycle) : (c.cycling index cycle).cycles index = cycle :=
  Function.update_self ..

theorem cycling_cycling (first second : Option Cycle) :
    (c.cycling index first).cycling index second = c.cycling index second := by
  unfold cycling
  dsimp only
  rw [Function.update_idem]

theorem cycling_self : c.cycling index (c.cycles index) = c := by
  unfold cycling
  rw [Function.update_eq_self]

theorem effect_push {marker : Stored} (held : c.pending = some marker) (now : Micros) :
    c.effect (.push now) = { c with team := c.team.handed now marker, pending := none } := by
  simp only [effect, held]

theorem effect_copy (idle : c.cycles index = none) (there : c.team.shards[index]? = some s) :
    c.effect (.copy index) = c.cycling index (some ⟨s.flows.toList, []⟩) := by
  simp only [effect, idle, there]

theorem effect_drain {cycle : Cycle} {flow : FlowId} (busy : c.cycles index = some cycle)
    (there : c.team.shards[index]? = some s) (listed : flow ∈ cycle.todo.map (·.1)) (now : Micros)
    (result : Except Fault Drained) : c.effect (.drain index flow now result) =
      c.cycling index (cycle.drained s.flowTimeout flow now result) := by
  simp only [effect, busy, there, if_pos listed]

theorem effect_settle {fates : List Fate} (ends : c.cycles index = some ⟨[], fates⟩)
    (there : c.team.shards[index]? = some s) : c.effect (.settle index) =
      { c.cycling index none with team := c.team.replacing index (s.settleAll fates) } := by
  simp only [effect, ends, there]

theorem run_route (idle : c.pending = none) (marker : Stored) (now : Micros) :
    c.run [.query marker, .push now] = { c with team := c.team.routed now marker } := by
  rw [run_cons, run_cons, run_nil, Team.routed_eq]
  by_cases attended : c.team.attended marker.flow = true
  · have passed : c.effect (.query marker) = c := if_pos (.inr attended)
    rw [passed, if_pos attended]
    simp only [effect, idle]
    rw [← idle]
  · have noted : c.effect (.query marker) = { c with pending := some marker } :=
      if_neg (not_or.mpr ⟨by rw [idle]; exact Bool.false_ne_true, attended⟩)
    rw [noted, if_neg attended, effect_push rfl, idle]

theorem run_releases (idle : c.pending = none) (flows : List FlowId) :
    c.run (flows.map .release) = { c with team := flows.foldl Team.released c.team } := by
  induction flows generalizing c with
  | nil => rfl
  | cons flow rest ih =>
    have first : c.effect (.release flow) = { c with team := c.team.released flow } := by
      simp only [effect, idle, Option.isSome_none, Bool.false_eq_true, if_false]
    rw [List.map_cons, run_cons, first]
    exact ih idle

theorem run_release (idle : c.pending = none) :
    c.run ((c.team.router.assignments.toList.map (·.1)).map .release) =
      { c with team := c.team.release.2 } := by
  rw [run_releases idle, Team.foldl_released]
  change ({ c with team := c.team.remembering _ } : Crew) = { c with team := c.team.remembering _ }
  congr 2
  apply Std.ExtTreeMap.ext_getElem?
  intro flow
  rw [Std.ExtTreeMap.getElem?_filter', Std.ExtTreeMap.getElem?_filter']
  cases given : c.team.router.assignments[flow]? with
  | none => rfl
  | some index =>
    have listed : flow ∈ c.team.router.assignments.toList.map (·.1) :=
      List.mem_map.mpr ⟨(flow, index), Std.ExtTreeMap.mem_toList_iff_getElem?_eq_some.mpr given, rfl⟩
    simp only [Option.filter_some, listed, not_true_eq_false, decide_false, Bool.false_or]

def drains (v : View) (index : Nat) : List (FlowId × Position) → Outlet → List Move
  | [], _ => []
  | (flow, position) :: rest, outlet =>
    match drainFlow v flow position outlet with
    | .ok drained outlet => .drain index flow v.now (.ok drained) :: drains v index rest outlet
    | .error fault _ => [.drain index flow v.now (.error fault)]

theorem run_drains {v : View} (there : c.team.shards[index]? = some s)
    {todo : List (FlowId × Position)} {fates : List Fate} (busy : c.cycles index = some ⟨todo, fates⟩)
    (distinct : todo.Pairwise fun a b => a.1 ≠ b.1) (outlet : Outlet) :
    c.run (drains v index todo outlet) =
      c.cycling index (match drainFlows v s.flowTimeout todo outlet with
        | .ok (others, _) _ => some ⟨[], fates ++ others⟩
        | .error _ _ => none) := by
  induction todo generalizing c fates outlet with
  | nil =>
    change c = c.cycling index (some ⟨[], fates ++ []⟩)
    rw [List.append_nil, ← busy, cycling_self]
  | cons pair rest ih =>
    obtain ⟨flow, position⟩ := pair
    obtain ⟨apart, others⟩ := List.pairwise_cons.mp distinct
    have next : ∀ now result, c.effect (.drain index flow now result) = c.cycling index
        ((⟨(flow, position) :: rest, fates⟩ : Cycle).drained s.flowTimeout flow now result) :=
      effect_drain busy there List.mem_cons_self
    have left : ((flow, position) :: rest).filter (fun pair => pair.1 ≠ flow) = rest := by
      rw [List.filter_cons_of_neg (by simp)]
      exact List.filter_eq_self.mpr fun other listed => decide_eq_true (apart other listed).symm
    rw [drains, drainFlows]
    cases first : drainFlow v flow position outlet with
    | error fault outlet' =>
      rw [Work.bind_error first, run_cons, run_nil, next]
      rfl
    | ok drained outlet' =>
      rw [Work.bind_ok first]
      dsimp only
      rw [run_cons, next]
      unfold Cycle.drained
      dsimp only
      rw [left]
      have later := ih (c := c.cycling index
        (some ⟨rest, fates ++ [fateOf flow s.flowTimeout v.now drained]⟩)) there
        (cycles_cycling_self _) others outlet'
      rw [later, cycling_cycling]
      cases second : drainFlows v s.flowTimeout rest outlet' with
      | error fault outlet'' => rw [Work.bind_error second]
      | ok found outlet'' =>
        rw [Work.bind_ok second, Work.pure_run]
        dsimp only
        rw [List.append_assoc, List.singleton_append]

def rounded (v : View) (s : Shard) (outlet : Outlet) : Shard :=
  match Shard.round v (s, outlet) with
  | .ok _ (after, _) => after
  | .error _ (after, _) => after

theorem run_round (idle : c.cycles index = none) (there : c.team.shards[index]? = some s) (v : View)
    (outlet : Outlet) :
    c.run (.copy index :: (drains v index s.flows.toList outlet ++ [.settle index])) =
      { c with team := c.team.replacing index (rounded v s outlet) } := by
  have drained := run_drains (c := c.cycling index (some ⟨s.flows.toList, []⟩)) (v := v) there
    (cycles_cycling_self _) s.distinct_flows outlet
  rw [run_cons, effect_copy idle there, run_append, drained, cycling_cycling, run_cons, run_nil]
  unfold rounded
  cases ran : drainFlows v s.flowTimeout s.flows.toList outlet with
  | error fault outlet' =>
    have same : c.team.replacing index s = c.team := by
      have kept : c.team.shards.setIfInBounds index s = c.team.shards := by
        apply Array.ext_getElem?
        intro place
        rw [Array.getElem?_setIfInBounds, if_pos (Array.getElem?_eq_some_iff.mp there).1]
        split
        · next here => rw [← here, there]
        · rfl
      unfold Team.replacing
      rw [kept]
    rw [Shard.round_of_error ran]
    dsimp only
    rw [← idle, cycling_self, same]
    simp only [effect, idle]
  | ok found outlet' =>
    obtain ⟨fates, blocks⟩ := found
    obtain ⟨stats, ended⟩ := Shard.round_of_ok ran
    rw [ended]
    dsimp only
    rw [effect_settle (c := c.cycling index _) (cycles_cycling_self _) there, cycling_cycling,
      ← idle, cycling_self]
    rfl

end Crew

/-! ### What a move does -/

namespace Team

variable {t : Team} {flow : FlowId}

theorem Assigned.unowned (assigned : t.Assigned) (left : t.attended flow = false) (index : Nat) :
    t.position? index flow = none := by
  cases known : t.position? index flow with
  | none => rfl
  | some position =>
    have owned : (t.position? index flow).isSome = true := by rw [known, Option.isSome_some]
    rw [attended, assigned index flow owned, Option.map_some, Option.getD_some, owns_eq, owned] at left
    cases left

theorem position?_handed (t : Team) (now : Micros) (marker : Stored) (index : Nat) (flow : FlowId) :
    (t.handed now marker).position? index flow =
      if t.turn = index ∧ marker.flow = flow ∧ index < t.shards.size then
        (t.position? index flow).or (some (.ofMarker marker now))
      else t.position? index flow :=
  t.position?_modify _ t.turn rfl _

theorem Assigned.handed (assigned : t.Assigned) {marker : Stored}
    (unowned : ∀ index, t.position? index marker.flow = none) (now : Micros) :
    (t.handed now marker).Assigned := by
  intro index flow owned
  rw [position?_handed] at owned
  change (t.router.assignments.insert marker.flow t.turn)[flow]? = some index
  rw [FlowId.getElem?_insert]
  split at owned
  · next here => rw [if_pos here.2.1, here.1]
  · split
    · next same =>
      rw [← same, unowned index] at owned
      cases owned
    · exact assigned index flow owned

theorem position?_released (t : Team) (flow : FlowId) (index : Nat) (other : FlowId) :
    (t.released flow).position? index other = t.position? index other := by
  rw [released_eq]
  rfl

theorem Assigned.released (assigned : t.Assigned) (flow : FlowId) : (t.released flow).Assigned := by
  intro index other owned
  rw [position?_released] at owned
  rw [assignments_released, assigned index other owned]
  split
  · rw [Option.filter_some, if_pos (owns_eq.trans owned)]
  · rfl

end Team

namespace Cycle

variable {t t' : Team} {index : Nat} {cycle : Cycle}

structure Covered (t : Team) (index : Nat) (cycle : Cycle) : Prop where
  inside : index < t.shards.size
  distinct : cycle.flows.Nodup
  owned : ∀ flow ∈ cycle.flows, (t.position? index flow).isSome

theorem Covered.mono (covered : Covered t index cycle) (size : t'.shards.size = t.shards.size)
    (kept : ∀ flow, (t.position? index flow).isSome → (t'.position? index flow).isSome) :
    Covered t' index cycle where
  inside := size ▸ covered.inside
  distinct := covered.distinct
  owned flow listed := kept flow (covered.owned flow listed)

theorem Covered.copied {s : Shard} (there : t.shards[index]? = some s) :
    Covered t index ⟨s.flows.toList, []⟩ where
  inside := (Array.getElem?_eq_some_iff.mp there).1
  distinct := by
    unfold flows
    rw [List.map_nil, List.append_nil]
    exact List.pairwise_map.mpr s.distinct_flows
  owned := by
    intro flow listed
    unfold flows at listed
    rw [List.map_nil, List.append_nil] at listed
    obtain ⟨pair, copied, rfl⟩ := List.mem_map.mp listed
    rw [Team.position?, there, Option.bind_some, mem_flows.mp copied]
    rfl

theorem flows_drained {timeout now : Micros} {flow : FlowId} {result : Except Fault Drained}
    {cycle' : Cycle} (listed : flow ∈ cycle.todo.map (·.1))
    (goes_on : cycle.drained timeout flow now result = some cycle') (distinct : cycle.flows.Nodup) :
    cycle'.flows.Nodup ∧ ∀ other, other ∈ cycle'.flows → other ∈ cycle.flows := by
  cases result with
  | error fault => cases goes_on
  | ok drained =>
    obtain rfl := Option.some.inj goes_on
    obtain ⟨first, second, apart⟩ := List.nodup_append.mp distinct
    have left : (cycle.todo.filter fun pair => pair.1 ≠ flow).map (·.1) =
        (cycle.todo.map (·.1)).filter (· ≠ flow) := by
      rw [List.filter_map]
      rfl
    have fates : (cycle.fates ++ [fateOf flow timeout now drained]).map (·.flow) =
        cycle.fates.map (·.flow) ++ [flow] := List.map_append
    unfold flows
    dsimp only
    rw [left, fates]
    constructor
    · apply List.nodup_append.mpr
      refine ⟨first.filter _, ?_, ?_⟩
      · apply List.nodup_append.mpr
        refine ⟨second, List.nodup_singleton flow, ?_⟩
        intro other late last here same
        exact apart flow listed other late ((List.mem_singleton.mp here).symm.trans same.symm)
      · intro other early last late same
        obtain ⟨early, different⟩ := List.mem_filter.mp early
        rcases List.mem_append.mp late with before | here
        · exact apart other early last before same
        · rw [same, List.mem_singleton.mp here] at different
          simp at different
    · intro other member
      rcases List.mem_append.mp member with early | late
      · exact List.mem_append_left _ (List.mem_filter.mp early).1
      · rcases List.mem_append.mp late with before | here
        · exact List.mem_append_right _ before
        · rw [List.mem_singleton.mp here]
          exact List.mem_append_left _ listed

end Cycle

namespace Crew

variable {c c' : Crew} {move : Move} {index : Nat} {flow : FlowId}

inductive Acts (c : Crew) : Move → Crew → Prop
  | rest (move : Move) : Acts c move c
  | query (marker : Stored) (idle : c.pending = none) (left : c.team.attended marker.flow = false) :
      Acts c (.query marker) { c with pending := some marker }
  | push (now : Micros) (marker : Stored) (held : c.pending = some marker) :
      Acts c (.push now) { c with team := c.team.handed now marker, pending := none }
  | release (flow : FlowId) (idle : c.pending = none) :
      Acts c (.release flow) { c with team := c.team.released flow }
  | copy (index : Nat) (s : Shard) (idle : c.cycles index = none)
      (there : c.team.shards[index]? = some s) :
      Acts c (.copy index) (c.cycling index (some ⟨s.flows.toList, []⟩))
  | drain (index : Nat) (flow : FlowId) (now : Micros) (result : Except Fault Drained) (cycle : Cycle)
      (timeout : Micros) (busy : c.cycles index = some cycle) (listed : flow ∈ cycle.todo.map (·.1)) :
      Acts c (.drain index flow now result)
        (c.cycling index (cycle.drained timeout flow now result))
  | settle (index : Nat) (s : Shard) (fates : List Fate) (ends : c.cycles index = some ⟨[], fates⟩)
      (there : c.team.shards[index]? = some s) :
      Acts c (.settle index)
        { c.cycling index none with team := c.team.replacing index (s.settleAll fates) }

theorem acts (c : Crew) (move : Move) : c.Acts move (c.effect move) := by
  cases move with
  | query marker =>
    unfold effect
    dsimp only
    split
    · exact .rest _
    · next idle =>
      obtain ⟨free, left⟩ := not_or.mp idle
      exact .query marker (Option.not_isSome_iff_eq_none.mp free) (Bool.eq_false_iff.mpr left)
  | push now =>
    unfold effect
    dsimp only
    split
    · exact .rest _
    · next marker held => exact .push now marker held
  | release flow =>
    unfold effect
    dsimp only
    split
    · exact .rest _
    · next free => exact .release flow (Option.not_isSome_iff_eq_none.mp free)
  | copy index =>
    unfold effect
    dsimp only
    split
    · next idle there => exact .copy index _ idle there
    · exact .rest _
  | drain index flow now result =>
    unfold effect
    dsimp only
    split
    · next cycle s busy there =>
      split
      · next listed => exact .drain index flow now result cycle s.flowTimeout busy listed
      · exact .rest _
    · exact .rest _
  | settle index =>
    unfold effect
    dsimp only
    split
    · next ends there => exact .settle index _ _ ends there
    · exact .rest _

theorem Acts.size (acts : c.Acts move c') : c'.team.shards.size = c.team.shards.size := by
  cases acts with
  | push => exact Array.size_modify
  | release flow =>
    dsimp only
    rw [Team.released_eq]
    rfl
  | settle => exact Array.size_setIfInBounds
  | _ => rfl

/-- What holds between the steps: the router knows the owner of each flow, nobody owns what it is about
to push, and the cycles settle flows that their shards own. -/
structure Consistent (c : Crew) : Prop where
  assigned : c.team.Assigned
  unowned : ∀ marker, c.pending = some marker → ∀ index, c.team.position? index marker.flow = none
  covered : ∀ index cycle, c.cycles index = some cycle → cycle.Covered c.team index

theorem Consistent.position_settled (consistent : c.Consistent) {place : Nat} {s : Shard}
    {fates : List Fate} (ends : c.cycles place = some ⟨[], fates⟩)
    (there : c.team.shards[place]? = some s) (flow : FlowId) :
    let after := c.team.replacing place (s.settleAll fates)
    (∀ fate ∈ fates, fate.flow = flow → after.position? place flow = fate.position) ∧
    ∀ index, (place = index → ∀ fate ∈ fates, fate.flow ≠ flow) →
      after.position? index flow = c.team.position? index flow := by
  obtain ⟨_, distinct, owned⟩ := consistent.covered place _ ends
  have known : ∀ fate ∈ fates, s.owns fate.flow = true := by
    intro fate listed
    have here := owned fate.flow (List.mem_map_of_mem listed)
    rw [Team.position?, there, Option.bind_some] at here
    rw [Shard.owns_eq, here]
  obtain ⟨hit, missed⟩ := s.flows_settleAll known (List.pairwise_map.mp distinct) flow
  constructor
  · intro fate listed same
    refine (Team.position?_set there _ place flow).trans ?_
    rw [if_pos rfl]
    exact hit fate listed same
  · intro index misses
    refine (Team.position?_set there _ index flow).trans ?_
    split
    · next same =>
      subst same
      rw [missed (misses rfl), Team.position?, there, Option.bind_some]
    · rfl

/-- A position changes only when its flow is pushed to the shard in turn, or when the cycle of its shard
settles it. -/
theorem Consistent.position (consistent : c.Consistent) (acts : c.Acts move c') (index : Nat)
    (flow : FlowId) :
    c'.team.position? index flow = c.team.position? index flow ∨
    (∃ now marker, move = .push now ∧ c.pending = some marker ∧ marker.flow = flow ∧
      c.team.turn = index) ∨
    ∃ fates, move = .settle index ∧ c.cycles index = some ⟨[], fates⟩ ∧ c'.cycles index = none ∧
      ∃ fate ∈ fates, fate.flow = flow := by
  cases acts with
  | push now marker held =>
    dsimp only
    rw [Team.position?_handed]
    split
    · next here => exact .inr (.inl ⟨now, marker, rfl, held, here.2.1, here.1⟩)
    · exact .inl rfl
  | release other => exact .inl (Team.position?_released ..)
  | settle place s fates ends there =>
    by_cases mine : place = index ∧ ∃ fate ∈ fates, fate.flow = flow
    · obtain ⟨rfl, fate, listed, same⟩ := mine
      exact .inr (.inr ⟨fates, rfl, ends, Function.update_self .., fate, listed, same⟩)
    · refine .inl ((consistent.position_settled ends there flow).2 index ?_)
      intro same fate listed here
      exact mine ⟨same, fate, listed, here⟩
  | _ => exact .inl rfl

theorem Consistent.owned (consistent : c.Consistent) (acts : c.Acts move c')
    (owned : (c'.team.position? index flow).isSome) :
    (c.team.position? index flow).isSome ∨
      ∃ now marker, move = .push now ∧ c.pending = some marker ∧ marker.flow = flow ∧
        c.team.turn = index := by
  rcases consistent.position acts index flow with same | pushed | ⟨fates, _, ends, _, fate, listed, here⟩
  · rw [same] at owned
    exact .inl owned
  · exact .inr pushed
  · have known := (consistent.covered index _ ends).owned fate.flow (List.mem_map_of_mem listed)
    rw [here] at known
    exact .inl known

theorem Consistent.kept (consistent : c.Consistent) (acts : c.Acts move c')
    (goes_on : (c'.cycles index).isSome) {position : Position}
    (known : c.team.position? index flow = some position) :
    c'.team.position? index flow = some position := by
  rcases consistent.position acts index flow with
    same | ⟨now, marker, _, held, here, _⟩ | ⟨fates, _, _, ended, _⟩
  · exact same.trans known
  · rw [← here, consistent.unowned marker held index] at known
    cases known
  · rw [ended] at goes_on
    cases goes_on

theorem Consistent.assigned_later (consistent : c.Consistent) (acts : c.Acts move c') : c'.team.Assigned := by
  cases acts with
  | push now marker held => exact consistent.assigned.handed (consistent.unowned marker held) now
  | release other => exact consistent.assigned.released other
  | settle place s fates ends there =>
    intro index flow owned
    rcases consistent.owned (.settle place s fates ends there) owned with known | ⟨_, _, pushes, _⟩
    · exact consistent.assigned index flow known
    · cases pushes
  | _ => exact consistent.assigned

theorem Consistent.unowned_later (consistent : c.Consistent) (acts : c.Acts move c') {marker : Stored}
    (held : c'.pending = some marker) (index : Nat) : c'.team.position? index marker.flow = none := by
  cases acts with
  | query other idle left =>
    obtain rfl := Option.some.inj held
    exact consistent.assigned.unowned left index
  | push now other before => cases held
  | release other idle =>
    rw [show c.pending = some marker from held] at idle
    cases idle
  | settle place s fates ends there =>
    by_contra owned
    rcases consistent.owned (.settle place s fates ends there)
      (Option.isSome_iff_ne_none.mpr owned) with known | ⟨_, _, pushes, _⟩
    · rw [consistent.unowned marker held index] at known
      cases known
    · cases pushes
  | _ => exact consistent.unowned marker held index

theorem Consistent.covered_later (consistent : c.Consistent) (acts : c.Acts move c') {index : Nat}
    {cycle : Cycle} (goes_on : c'.cycles index = some cycle) : cycle.Covered c'.team index := by
  have kept : ∀ flow, (c.team.position? index flow).isSome → (c'.team.position? index flow).isSome := by
    intro flow owned
    obtain ⟨position, known⟩ := Option.isSome_iff_exists.mp owned
    rw [consistent.kept acts (Option.isSome_of_eq_some goes_on) known]
    rfl
  have same : ∀ cycle, c.cycles index = some cycle → cycle.Covered c'.team index :=
    fun cycle busy => (consistent.covered index cycle busy).mono acts.size kept
  cases acts with
  | copy place s idle there =>
    rw [cycles_cycling] at goes_on
    split at goes_on
    · next here =>
      subst here
      obtain rfl := Option.some.inj goes_on
      exact .copied there
    · exact same cycle goes_on
  | drain place other now result before timeout busy listed =>
    rw [cycles_cycling] at goes_on
    split at goes_on
    · next here =>
      subst here
      have covered := same before busy
      obtain ⟨distinct, fewer⟩ := Cycle.flows_drained listed goes_on covered.distinct
      exact ⟨covered.inside, distinct, fun flow member => covered.owned flow (fewer flow member)⟩
    · exact same cycle goes_on
  | settle place s fates ends there =>
    change (c.cycling place none).cycles index = some cycle at goes_on
    rw [cycles_cycling] at goes_on
    split at goes_on
    · cases goes_on
    · exact same cycle goes_on
  | _ => exact same cycle goes_on

theorem Consistent.later (consistent : c.Consistent) (acts : c.Acts move c') : c'.Consistent where
  assigned := consistent.assigned_later acts
  unowned _ held := consistent.unowned_later acts held
  covered _ _ goes_on := consistent.covered_later acts goes_on

theorem Consistent.run (consistent : c.Consistent) (moves : List Move) : (c.run moves).Consistent := by
  induction moves generalizing c with
  | nil => exact consistent
  | cons move rest ih => exact ih (consistent.later (c.acts move))

theorem Consistent.formed {config : ShardConfig} {team : Team} (formed : Team.ofConfig config = .ok team) :
    ({ team } : Crew).Consistent where
  assigned index flow owned := by
    rw [(Team.ofConfig_ok formed).2.2.1 index flow] at owned
    cases owned
  unowned := nofun
  covered := nofun

/-! ### What is pushed during a cycle, and what a cycle lets go -/

/-- The flow came to a shard after the cycle in progress copied what the shard owned. -/
structure Spares (c : Crew) (index : Nat) (flow : FlowId) (position : Position) : Prop where
  cycle : ∃ cycle, c.cycles index = some cycle ∧ flow ∉ cycle.flows
  known : c.team.position? index flow = some position

theorem Spares.later {position : Position} (spares : c.Spares index flow position)
    (consistent : c.Consistent) (acts : c.Acts move c') (goes_on : (c'.cycles index).isSome) :
    c'.Spares index flow position where
  cycle := by
    obtain ⟨cycle, busy, missing⟩ := spares.cycle
    cases acts with
    | copy place s idle there =>
      rw [cycles_cycling, if_neg (by rintro rfl; rw [busy] at idle; cases idle)]
      exact ⟨cycle, busy, missing⟩
    | drain place other now result before timeout running listed =>
      rw [cycles_cycling] at goes_on ⊢
      split
      · next here =>
        subst here
        rw [if_pos rfl] at goes_on
        obtain ⟨cycle', drained⟩ := Option.isSome_iff_exists.mp goes_on
        obtain rfl := Option.some.inj (busy.symm.trans running)
        have distinct := (consistent.covered index cycle busy).distinct
        refine ⟨cycle', drained, fun member => missing ?_⟩
        exact (Cycle.flows_drained listed drained distinct).2 flow member
      · exact ⟨cycle, busy, missing⟩
    | settle place s fates ends there =>
      change ((c.cycling place none).cycles index).isSome at goes_on
      change ∃ cycle, (c.cycling place none).cycles index = some cycle ∧ flow ∉ cycle.flows
      rw [cycles_cycling] at goes_on ⊢
      split
      · next here =>
        rw [if_pos here] at goes_on
        cases goes_on
      · exact ⟨cycle, busy, missing⟩
    | _ => exact ⟨cycle, busy, missing⟩
  known := consistent.kept acts goes_on spares.known

theorem underway_cons {rest : List Move} (busy : underway index (move :: rest) c = true) :
    (c.cycles index).isSome ∧ underway index rest (c.effect move) = true :=
  Bool.and_eq_true_iff.mp busy

theorem isSome_of_underway {moves : List Move} (busy : underway index moves c = true) :
    (c.cycles index).isSome := by
  cases moves with
  | nil => exact busy
  | cons move rest => exact (underway_cons busy).1

theorem Spares.run {position : Position} (spares : c.Spares index flow position)
    (consistent : c.Consistent) {moves : List Move} (busy : underway index moves c = true) :
    (c.run moves).Spares index flow position := by
  induction moves generalizing c with
  | nil => exact spares
  | cons move rest ih =>
    obtain ⟨_, goes_on⟩ := underway_cons busy
    have acts := c.acts move
    exact ih (spares.later consistent acts (isSome_of_underway goes_on)) (consistent.later acts) goes_on

theorem Consistent.spares_pushed (consistent : c.Consistent) {marker : Stored}
    (held : c.pending = some marker) (now : Micros) (busy : (c.cycles c.team.turn).isSome) :
    (c.effect (.push now)).Spares c.team.turn marker.flow (.ofMarker marker now) := by
  obtain ⟨cycle, running⟩ := Option.isSome_iff_exists.mp busy
  have covered := consistent.covered _ cycle running
  have fresh := consistent.unowned marker held c.team.turn
  rw [effect_push held]
  constructor
  · refine ⟨cycle, running, fun member => ?_⟩
    have owned := covered.owned _ member
    rw [fresh] at owned
    cases owned
  · rw [Team.position?_handed, if_pos ⟨rfl, rfl, covered.inside⟩, fresh, Option.none_or]

/-- The write-back of a cycle leaves alone what was pushed while the cycle was in progress. If its own
shard came to own the flow, the flow stands at the position that it was pushed with. -/
def KeepsPushed (c : Crew) : Prop :=
  ∀ marker now index between, c.pending = some marker →
    underway index (.push now :: between) c = true →
      let before := c.run (.push now :: between)
      let after := before.effect (.settle index)
      after.team.position? c.team.turn marker.flow = before.team.position? c.team.turn marker.flow ∧
        (index = c.team.turn →
          after.team.position? index marker.flow = some (.ofMarker marker now))

/-- A flow that a cycle found expired is not owned when the cycle is over, and its shard does not come to
own it again before it is pushed again. -/
def LeavesExpired (c : Crew) : Prop :=
  ∀ index cycle flow later, c.cycles index = some cycle → cycle.todo = [] → ⟨flow, none⟩ ∈ cycle.fates →
    ((c.effect (.settle index)).run later).team.owns index flow = false ∨
      ∃ front now back marker, later = front ++ .push now :: back ∧
        ((c.effect (.settle index)).run front).pending = some marker ∧ marker.flow = flow ∧
        ((c.effect (.settle index)).run front).team.turn = index

theorem Consistent.keepsPushed (consistent : c.Consistent) : c.KeepsPushed := by
  intro marker now index between held busy
  obtain ⟨running, goes_on⟩ := underway_cons busy
  have pushed := consistent.later (c.acts (.push now))
  have then_on := pushed.run between
  have settles := ((c.effect (.push now)).run between).acts (.settle index)
  have spared : index = c.team.turn →
      ((c.effect (.push now)).run between).Spares index marker.flow (.ofMarker marker now) := by
    intro turn
    rw [turn] at running goes_on ⊢
    exact (consistent.spares_pushed held now running).run pushed goes_on
  have same := then_on.position settles c.team.turn marker.flow
  have kept : (((c.effect (.push now)).run between).effect (.settle index)).team.position?
      c.team.turn marker.flow =
        ((c.effect (.push now)).run between).team.position? c.team.turn marker.flow := by
    rcases same with same | ⟨_, _, pushes, _⟩ | ⟨fates, settled, ends, _, fate, listed, here⟩
    · exact same
    · cases pushes
    · -- The cycle that settles copied its flows before this one came.
      have turn := Move.settle.inj settled
      obtain ⟨cycle, ongoing, missing⟩ := (spared turn).cycle
      rw [turn, ends] at ongoing
      obtain rfl := Option.some.inj ongoing
      exact absurd (here ▸ List.mem_map_of_mem listed) missing
  refine ⟨kept, fun turn => ?_⟩
  rw [turn] at spared kept ⊢
  exact kept.trans (spared rfl).known

theorem Consistent.unowned_run (consistent : c.Consistent)
    (unowned : c.team.position? index flow = none) (later : List Move) :
    (c.run later).team.position? index flow = none ∨
      ∃ front now back marker, later = front ++ .push now :: back ∧
        (c.run front).pending = some marker ∧ marker.flow = flow ∧ (c.run front).team.turn = index := by
  induction later generalizing c with
  | nil => exact .inl unowned
  | cons move rest ih =>
    have acts := c.acts move
    cases next : (c.effect move).team.position? index flow with
    | none =>
      rcases ih (consistent.later acts) next with still | ⟨front, now, back, marker, rfl, pushed⟩
      · exact .inl still
      · exact .inr ⟨move :: front, now, back, marker, rfl, pushed⟩
    | some position =>
      rcases consistent.owned acts (Option.isSome_of_eq_some next) with
        known | ⟨now, marker, rfl, held, here, turn⟩
      · rw [unowned] at known
        cases known
      · exact .inr ⟨[], now, rest, marker, rfl, held, here, turn⟩

theorem Consistent.leavesExpired (consistent : c.Consistent) : c.LeavesExpired := by
  intro index cycle flow later busy done expired
  obtain ⟨todo, fates⟩ := cycle
  obtain rfl : todo = [] := done
  have inside := (consistent.covered index _ busy).inside
  have there : c.team.shards[index]? = some c.team.shards[index] := Array.getElem?_eq_getElem inside
  have gone : (c.effect (.settle index)).team.position? index flow = none := by
    rw [effect_settle busy there]
    exact (consistent.position_settled busy there flow).1 _ expired rfl
  have settled := consistent.later (c.acts (.settle index))
  rcases settled.unowned_run gone later with still | pushed
  · refine .inl ?_
    rw [Team.owns_eq, still]
    rfl
  · exact .inr pushed

end Crew

/-- No flow has two owners, and the router remembers the one it has. -/
structure Team.Exclusive (t : Team) : Prop where
  single : ∀ flow one other, t.owns one flow = true → t.owns other flow = true → one = other
  remembered : ∀ flow index, t.owns index flow = true → t.router.assignments[flow]? = some index

theorem Team.Assigned.exclusive {t : Team} (assigned : t.Assigned) : t.Exclusive where
  single flow one other first second := by
    rw [owns_eq] at first second
    exact Option.some.inj ((assigned one flow first).symm.trans (assigned other flow second))
  remembered flow index owned := assigned index flow (owns_eq.symm.trans owned)

/-- However the steps of a router and of its shards interleave, no flow has two owners and the router
knows the one it has; no cycle loses what was pushed while it was in progress, and none brings back what
it found expired. -/
theorem Crew.owns_alone {config : ShardConfig} {team : Team} (formed : Team.ofConfig config = .ok team)
    (moves : List Crew.Move) :
    (({ team } : Crew).run moves).team.Exclusive ∧ (({ team } : Crew).run moves).KeepsPushed ∧
      (({ team } : Crew).run moves).LeavesExpired := by
  have consistent := (Crew.Consistent.formed formed).run moves
  exact ⟨consistent.assigned.exclusive, consistent.keepsPushed, consistent.leavesExpired⟩

def Crew.heralding (flow : FlowId) : Stored where
  ref := ⟨.pack flow .source ⟨100⟩, 0⟩
  header := .fresh .startFlow ⟨100⟩ 0 0
  payload := .empty
  ready := true

/-- A cycle finds the only flow of its shard expired. Before it ends the router gives another flow to the
same shard, after one to the other shard. -/
def Crew.crossing : List Crew.Move :=
  [.query (heralding ⟨7⟩), .push 0, .copy 0,
    .drain 0 ⟨7⟩ 20000000 (.ok ⟨.ofMarker (heralding ⟨7⟩) 0, 0, 0⟩),
    .query (heralding ⟨8⟩), .push 1, .query (heralding ⟨9⟩)]

theorem Crew.owns_alone_crossing : ∃ team, Team.ofConfig { handlerCount := 2 } = .ok team ∧
    let c := ({ team } : Crew).run crossing
    let after := c.run [.push 2, .settle 0]
    c.pending = some (heralding ⟨9⟩) ∧ c.team.Exclusive ∧
      after.team.position? 0 ⟨9⟩ = some (.ofMarker (heralding ⟨9⟩) 2) ∧
      c.team.owns 0 ⟨7⟩ = true ∧ after.team.owns 0 ⟨7⟩ = false := by
  refine ⟨_, rfl, ?_⟩
  intro c after
  obtain ⟨exclusive, pushed, _⟩ := @Crew.owns_alone { handlerCount := 2 } _ rfl crossing
  obtain ⟨_, _, expired⟩ := @Crew.owns_alone { handlerCount := 2 } _ rfl (crossing ++ [.push 2])
  have held : c.pending = some (heralding ⟨9⟩) := by with_unfolding_all rfl
  refine ⟨held, exclusive, ?_, by decide +kernel, ?_⟩
  · exact (pushed (heralding ⟨9⟩) 2 0 [] held (by decide +kernel)).2 (by decide +kernel)
  · have ends : (c.run [.push 2]).cycles 0 = some ⟨[], [⟨⟨7⟩, none⟩]⟩ := by with_unfolding_all rfl
    rcases expired 0 _ ⟨7⟩ [] ends rfl List.mem_cons_self with gone | ⟨front, _, back, _, parts, _⟩
    · exact gone
    · cases front with
      | nil => cases parts
      | cons move rest => cases parts

end Reassembly.Delivery
