import Reassembly.Proofs.Rounds
import Reassembly.Proofs.Telling

/-!
Rounds that fail. Whatever bytes a store holds, what a round that succeeds tells of a flow goes on from
where its reader was, and the shard then stands where the reader is. A round that fails leaves every
position where it was, though what it told stays told; so a shard keeps up with its reader exactly as long
as no round that fails moves the reader.
-/

namespace Reassembly.Delivery

open Store Reading

/-! ### What work tells that succeeds -/

namespace Draining

variable {α β : Type}

def Tells (work : Draining α) (post : α → List Event → Prop) : Prop :=
  ∀ outlet a after, work outlet = .ok a after → ∃ news : List Event,
    after.events = outlet.events ++ news.toArray ∧ post a news

variable {work : Draining α} {next : α → Draining β} {before : α → List Event → Prop}
  {post : β → List Event → Prop}

theorem Tells.pure {post : α → List Event → Prop} {a : α} (here : post a []) :
    Tells (pure a) post := by
  intro outlet b after ran
  obtain ⟨rfl, rfl⟩ := EStateM.Result.ok.inj ran
  exact ⟨[], (told_nil _).symm, here⟩

theorem Tells.bind (first : work.Tells before)
    (rest : ∀ a early, before a early → (next a).Tells fun b late => post b (early ++ late)) :
    (work >>= next).Tells post := by
  intro outlet b after ran
  obtain ⟨a, between, one, two⟩ := Work.of_bind_ok ran
  obtain ⟨early, told, known⟩ := first outlet a between one
  obtain ⟨late, told', known'⟩ := rest a early known between b after two
  exact ⟨early ++ late, by rw [told', told, told_append], known'⟩

theorem Tells.mono {post post' : α → List Event → Prop} (tells : work.Tells post)
    (weaker : ∀ a news, post a news → post' a news) : work.Tells post' := by
  intro outlet a after ran
  obtain ⟨news, told, known⟩ := tells outlet a after ran
  exact ⟨news, told, weaker a news known⟩

theorem onStore_tells (work : Access α) : (onStore work).Tells fun _ news => news = [] := by
  intro outlet a after ran
  obtain ⟨region, events⟩ := outlet
  unfold onStore Work.onPart at ran
  dsimp only at ran
  cases inner : work region with
  | ok b region' =>
    rw [inner] at ran
    obtain ⟨_, rfl⟩ := EStateM.Result.ok.inj ran
    exact ⟨[], (told_nil _).symm, rfl⟩
  | error fault region' =>
    rw [inner] at ran
    cases ran

theorem Tells.discard (silent : work.Tells fun _ news => news = []) :
    (discard work).Tells fun _ news => news = [] := by
  intro outlet done after ran
  cases inner : work outlet with
  | ok a between =>
    have same := (Work.map_ok (f := fun _ => ()) inner).symm.trans ran
    obtain ⟨_, rfl⟩ := EStateM.Result.ok.inj same
    exact silent outlet a between inner
  | error fault between =>
    have same := (Work.map_error (f := fun _ => ()) inner).symm.trans ran
    cases same

theorem tell_tells (news : List Event) : (tell news).Tells fun _ told => told = news := by
  intro outlet done after ran
  obtain ⟨_, rfl⟩ := EStateM.Result.ok.inj ran
  exact ⟨news, rfl, rfl⟩

end Draining

section Drained

variable (v : View) (flow : FlowId)

theorem takeMarkers_tells (position : Position) (markers : List Stored) :
    (takeMarkers v position markers).Tells fun after news =>
      after = adoptAll position markers v.now ∧ news = [] := by
  induction markers generalizing position with
  | nil => exact .pure ⟨rfl, rfl⟩
  | cons marker rest ih =>
    apply (Draining.onStore_tells _).discard.bind
    rintro _ _ rfl
    exact (ih (position.adopt marker v.now)).mono fun _ _ => id

theorem announce_tells (position : Position) :
    (announce flow position).Tells fun after news =>
      after = { position with announced := true } ∧ news = announcement flow position := by
  intro outlet after between ran
  obtain ⟨region, events⟩ := outlet
  rw [announce_run] at ran
  obtain ⟨rfl, rfl⟩ := EStateM.Result.ok.inj ran
  exact ⟨_, rfl, rfl, rfl⟩

theorem deliverBlocks_tells (side : Side) (expected : Option Seq) (blocks : List Stored) :
    (deliverBlocks v flow side expected blocks).Tells fun after news =>
      (news, after) = deliverFrames flow side expected (blocks.flatMap (·.frames)) := by
  induction blocks generalizing expected with
  | nil => exact .pure rfl
  | cons block rest ih =>
    rw [deliverBlocks, List.flatMap_cons, deliverFrames_append]
    dsimp only
    apply (Draining.tell_tells _).bind
    rintro _ _ rfl
    apply (Draining.onStore_tells _).discard.bind
    rintro _ _ rfl
    apply (ih _).mono
    intro after news told
    rw [← told]
    rfl

theorem drainSide_tells (side : Side) (blocks : List Stored) (state : Drained) :
    (drainSide v flow side blocks state).Tells fun after news =>
      after = (sideDrained flow side v.now blocks state).1 ∧
        news = (sideDrained flow side v.now blocks state).2.2 := by
  rw [drainSide, sideDrained]
  dsimp only
  cases anchor? (state.position.expected.get side) (blocks.filter (·.header.kind.isPayload)) with
  | none => exact .pure ⟨rfl, rfl⟩
  | some anchor =>
    apply (deliverBlocks_tells v flow side _ _).bind
    intro after news told
    apply Draining.Tells.pure
    dsimp only
    rw [← told, List.append_nil]
    exact ⟨rfl, rfl⟩

theorem drainFlow_tells (position : Position) :
    (drainFlow v flow position).Tells fun after news => ∃ source destination,
      after = (drainedFrom v flow position source destination).1 ∧
        news = (drainedFrom v flow position source destination).2.2 := by
  apply (Draining.onStore_tells _).bind
  rintro source _ rfl
  apply (Draining.onStore_tells _).bind
  rintro destination _ rfl
  apply (takeMarkers_tells v _ _).bind
  rintro _ _ ⟨rfl, rfl⟩
  apply (announce_tells flow _).bind
  rintro _ _ ⟨rfl, rfl⟩
  apply (drainSide_tells v flow .source source _).bind
  rintro _ _ ⟨rfl, rfl⟩
  apply (drainSide_tells v flow .destination destination _).mono
  rintro _ _ ⟨rfl, rfl⟩
  refine ⟨source, destination, rfl, ?_⟩
  simp only [drainedFrom, List.nil_append, List.append_assoc]

end Drained

/-! ### Rounds -/

/-- What is known of a flow that a shard stands with as it does. -/
def Shard.known (s : Shard) (flow : FlowId) : Option (PerSide Mark) := s.flows[flow]?.bind Position.known

structure FlowsTold (flows : List (FlowId × Position)) (fates : List Shard.Fate) (news : List Event) :
    Prop where
  fated : fates.map (·.flow) = flows.map (·.1)
  others : ∀ flow, flow ∉ flows.map (·.1) → ∀ event ∈ news, event.flow ≠ flow
  told : ∀ pair ∈ flows, ∃ q : Position, q.announced = true ∧
    knownAfter? pair.1 pair.2.known news = some q.known ∧
    ∃ fate ∈ fates, fate.flow = pair.1 ∧ (fate.position = none ∨ fate.position = some q)

theorem fateOf_cases (flow : FlowId) (timeout now : Micros) (drained : Drained) :
    (Shard.fateOf flow timeout now drained).position = none ∨
      (Shard.fateOf flow timeout now drained).position = some drained.position := by
  unfold Shard.fateOf
  dsimp only
  split
  · exact .inl rfl
  · exact .inr rfl

theorem drainFlows_tells (v : View) (timeout : Micros) {flows : List (FlowId × Position)}
    (distinct : flows.Pairwise fun a b => a.1 ≠ b.1) (apt : ∀ pair ∈ flows, pair.2.Apt) :
    (Shard.drainFlows v timeout flows).Tells fun found news => FlowsTold flows found.1 news := by
  induction flows with
  | nil => exact .pure ⟨rfl, fun _ _ _ listed => absurd listed List.not_mem_nil, nofun⟩
  | cons pair rest ih =>
    obtain ⟨flow, position⟩ := pair
    obtain ⟨apart, separate⟩ := List.pairwise_cons.mp distinct
    rw [Shard.drainFlows]
    apply (drainFlow_tells v flow position).bind
    rintro drained early ⟨source, destination, rfl, rfl⟩
    obtain ⟨known, announced⟩ := knownAfter?_drainedFrom v flow
      (apt (flow, position) List.mem_cons_self) source destination
    have mine := @drainedFrom_flow flow v position source destination
    generalize drainedFrom v flow position source destination = one at known announced mine ⊢
    apply (ih separate fun pair listed => apt pair (List.mem_cons_of_mem _ listed)).bind
    intro found late later
    apply Draining.Tells.pure
    rw [List.append_nil]
    have outside : flow ∉ rest.map (·.1) := by
      intro listed
      obtain ⟨pair, there, same⟩ := List.mem_map.mp listed
      exact apart pair there same.symm
    constructor
    · exact congrArg (flow :: ·) later.fated
    · intro other missing event listed
      rw [List.map_cons, List.mem_cons, not_or] at missing
      rcases List.mem_append.mp listed with first | second
      · rw [mine event first]
        exact fun same => missing.1 same.symm
      · exact later.others other missing.2 event second
    · intro pair listed
      rcases List.mem_cons.mp listed with rfl | there
      · refine ⟨one.1.position, announced, ?_, _, List.mem_cons_self, rfl, fateOf_cases ..⟩
        rw [knownAfter?_append known]
        exact knownAfter?_others (later.others flow outside)
      · obtain ⟨q, told, known', fate, present, here, stands⟩ := later.told pair there
        refine ⟨q, told, ?_, fate, List.mem_cons_of_mem _ present, here, stands⟩
        have silent : knownAfter? pair.1 pair.2.known one.2.2 = some pair.2.known := by
          apply knownAfter?_others
          intro event first
          rw [mine event first]
          exact apart pair there
        rw [knownAfter?_append silent]
        exact known'

namespace FlowsTold

variable {flows : List (FlowId × Position)} {fates : List Shard.Fate} {news : List Event} {flow : FlowId}

theorem unowned (told : FlowsTold flows fates news) (missing : flow ∉ flows.map (·.1))
    (known : Option (PerSide Mark)) :
    knownAfter? flow known (news ++ (Shard.expiredFlows fates).map Event.expired) = some known := by
  apply knownAfter?_others
  intro event listed
  rcases List.mem_append.mp listed with first | second
  · exact told.others flow missing event first
  · obtain ⟨other, gone, rfl⟩ := List.mem_map.mp second
    obtain ⟨fate, there, rfl⟩ := List.mem_map.mp gone
    rintro rfl
    exact missing (told.fated ▸ List.mem_map_of_mem (List.mem_filter.mp there).1)

theorem owned (told : FlowsTold flows fates news) (distinct : flows.Pairwise fun a b => a.1 ≠ b.1)
    {position : Position} (listed : (flow, position) ∈ flows) :
    ∃ fate ∈ fates, fate.flow = flow ∧ (∀ q, fate.position = some q → q.announced = true) ∧
      knownAfter? flow position.known (news ++ (Shard.expiredFlows fates).map Event.expired) =
        some (fate.position.bind Position.known) := by
  have separate : (fates.map (·.flow)).Nodup := by
    rw [told.fated]
    exact List.pairwise_map.mpr distinct
  obtain ⟨q, announced, read, fate, present, here, stands⟩ := told.told (flow, position) listed
  refine ⟨fate, present, here, fun other same => ?_, ?_⟩
  · rcases stands with gone | goes_on
    · rw [gone] at same
      cases same
    · obtain rfl := Option.some.inj (goes_on.symm.trans same)
      exact announced
  · rw [knownAfter?_append read, Position.known_of_announced announced]
    rcases stands with gone | goes_on
    · have ended : flow ∈ Shard.expiredFlows fates :=
        List.mem_map.mpr ⟨fate, List.mem_filter.mpr ⟨present, by rw [gone]; rfl⟩, here⟩
      rw [gone]
      exact knownAfter?_expired (separate.sublist (List.filter_sublist.map _)) ended _
    · rw [goes_on, Option.bind_some, Position.known_of_announced announced]
      apply knownAfter?_others
      intro event last
      obtain ⟨other, gone, rfl⟩ := List.mem_map.mp last
      obtain ⟨another, there, rfl⟩ := List.mem_map.mp gone
      obtain ⟨member, ended⟩ := List.mem_filter.mp there
      intro same
      have equal : another = fate := List.inj_on_of_nodup_map separate member present
        (show another.flow = fate.flow from same.trans here.symm)
      rw [equal, goes_on] at ended
      cases ended

end FlowsTold

namespace Shard

/-- The reader of a shard knows of each flow what the shard stands at. Then no byte was told twice, no start
twice without a new one far away, and no gap over bytes that were told, for none of these can come next. -/
def KeepsUp (state : Shard × Outlet) : Prop :=
  ∀ flow, knownAfter? flow none state.2.events.toList = some (state.1.known flow)

def Fit (s : Shard) : Prop :=
  ∀ (flow : FlowId) (position : Position), s.flows[flow]? = some position → position.Apt

variable {s : Shard} {outlet : Outlet} {v : View}

theorem round_tells (fit : s.Fit) {stats : RoundStats} {after : Shard × Outlet}
    (ran : Shard.round v (s, outlet) = .ok stats after) :
    after.1.Fit ∧ ∃ news : List Event, after.2.events = outlet.events ++ news.toArray ∧
      ∀ flow, knownAfter? flow (s.known flow) news = some (after.1.known flow) := by
  cases drained : drainFlows v s.flowTimeout s.flows.toList outlet with
  | error fault outlet' =>
    rw [round_of_error drained] at ran
    cases ran
  | ok found outlet' =>
    obtain ⟨fates, blocks⟩ := found
    obtain ⟨stats', ended⟩ := round_of_ok drained
    obtain ⟨_, rfl⟩ := EStateM.Result.ok.inj (ended.symm.trans ran)
    obtain ⟨news, told, spec⟩ := drainFlows_tells v s.flowTimeout s.distinct_flows
      (fun pair listed => fit pair.1 pair.2 (mem_flows.mp listed)) outlet _ outlet' drained
    have settled := @flows_settleAll s fates
      (fun fate listed => by
        obtain ⟨pair, there, same⟩ := List.mem_map.mp (spec.fated ▸ List.mem_map_of_mem listed)
        rw [owns_eq, show fate.flow = pair.1 from same.symm, mem_flows.mp there]
        rfl)
      (List.pairwise_map.mp (spec.fated ▸ List.pairwise_map.mpr s.distinct_flows))
    have each : ∀ flow, (∀ q : Position, (s.settleAll fates).flows[flow]? = some q → q.Apt) ∧
        knownAfter? flow (s.known flow) (news ++ (expiredFlows fates).map Event.expired) =
          some ((s.settleAll fates).known flow) := by
      intro flow
      unfold known
      cases stands : s.flows[flow]? with
      | none =>
        have missing : flow ∉ s.flows.toList.map (·.1) := by
          intro listed
          obtain ⟨pair, there, rfl⟩ := List.mem_map.mp listed
          rw [mem_flows.mp there] at stands
          cases stands
        have untouched : ∀ fate ∈ fates, fate.flow ≠ flow := by
          rintro fate listed rfl
          exact missing (spec.fated ▸ List.mem_map_of_mem listed)
        rw [(settled flow).2 untouched, stands]
        exact ⟨nofun, spec.unowned missing none⟩
      | some position =>
        have copied : (flow, position) ∈ s.flows.toList := mem_flows.mpr stands
        obtain ⟨fate, listed, here, announced, read⟩ := spec.owned s.distinct_flows copied
        rw [(settled flow).1 fate listed here]
        refine ⟨fun q same silent => ?_, read⟩
        rw [announced q same] at silent
        cases silent
    exact ⟨fun flow => (each flow).1, _, by rw [told, told_append], fun flow => (each flow).2⟩

/-! ### Runs -/

/-- What can happen at a shard: it is given the flow of a marker, others change the bytes of the store to
whatever they like, or it does a round. -/
inductive Turn where
  | claim (marker : Stored) (now : Micros)
  | overwrite (bytes : SparseBytes)
  | round (v : View)

def act (state : Shard × Outlet) : Turn → Shard × Outlet
  | .claim marker now => ((state.1.claim marker now).2, state.2)
  | .overwrite bytes => (state.1, { state.2 with region := { state.2.region with bytes } })
  | .round v =>
    match Shard.round v state with
    | .ok _ after => after
    | .error _ after => after

def acts (state : Shard × Outlet) (turns : List Turn) : Shard × Outlet := turns.foldl act state

theorem acts_concat (state : Shard × Outlet) (turns : List Turn) (turn : Turn) :
    acts state (turns ++ [turn]) = act (acts state turns) turn := List.foldl_concat ..

/-- A round fails that has told its reader something new of a flow. -/
def Lapses (v : View) (state : Shard × Outlet) : Prop :=
  ∃ fault after, Shard.round v state = .error fault after ∧
    ∃ flow, knownAfter? flow none after.2.events.toList ≠ knownAfter? flow none state.2.events.toList

theorem round_fails {state after : Shard × Outlet} {fault : Fault}
    (failed : Shard.round v state = .error fault after) : after.1 = state.1 := by
  obtain ⟨s, outlet⟩ := state
  cases drained : drainFlows v s.flowTimeout s.flows.toList outlet with
  | error fault' outlet' =>
    rw [round_of_error drained] at failed
    obtain ⟨_, rfl⟩ := EStateM.Result.error.inj failed
    rfl
  | ok found outlet' =>
    obtain ⟨stats, ended⟩ := round_of_ok drained
    rw [ended] at failed
    cases failed

theorem Fit.act {state : Shard × Outlet} (fit : state.1.Fit) (turn : Turn) : (act state turn).1.Fit := by
  cases turn with
  | claim marker now =>
    intro flow position stands
    change (state.1.claim marker now).2.flows[flow]? = some position at stands
    rw [flows_claim] at stands
    rcases Option.or_eq_some_iff.mp stands with old | ⟨_, fresh⟩
    · exact fit flow position old
    · split at fresh
      · obtain rfl := Option.some.inj fresh
        exact fun _ => rfl
      · cases fresh
  | overwrite bytes => exact fit
  | round v =>
    unfold Shard.act
    dsimp only
    cases ran : Shard.round v state with
    | ok stats after => exact (round_tells fit ran).1
    | error fault after =>
      dsimp only
      rw [round_fails ran]
      exact fit

theorem KeepsUp.act {state : Shard × Outlet} (upToDate : KeepsUp state) (fit : state.1.Fit) {turn : Turn}
    (steady : ∀ v, turn = .round v → ¬ Lapses v state) : KeepsUp (act state turn) := by
  intro flow
  cases turn with
  | claim marker now =>
    refine (upToDate flow).trans (congrArg some ?_)
    change state.1.flows[flow]?.bind Position.known =
      (state.1.claim marker now).2.flows[flow]?.bind Position.known
    rw [flows_claim]
    cases state.1.flows[flow]? with
    | some position => rfl
    | none =>
      rw [Option.none_or]
      split
      · rfl
      · rfl
  | overwrite bytes => exact upToDate flow
  | round v =>
    unfold Shard.act
    dsimp only
    cases ran : Shard.round v state with
    | ok stats after =>
      obtain ⟨_, news, told, known⟩ := round_tells fit ran
      dsimp only
      rw [told, Array.toList_append, knownAfter?_append (upToDate flow)]
      exact known flow
    | error fault after =>
      dsimp only
      rw [round_fails ran, ← upToDate flow]
      by_contra moved
      exact steady v rfl ⟨fault, after, ran, flow, moved⟩

variable (id : Nat) (config : ShardConfig) (region : Region)

theorem fit_fresh : (Shard.fresh id config).Fit := by
  intro flow position stands
  change (∅ : Std.ExtTreeMap FlowId Position)[flow]? = some position at stands
  rw [Std.ExtTreeMap.getElem?_empty] at stands
  cases stands

theorem keepsUp_fresh : KeepsUp (.fresh id config, ⟨region, #[]⟩) := by
  intro flow
  change some none = some ((∅ : Std.ExtTreeMap FlowId Position)[flow]?.bind Position.known)
  rw [Std.ExtTreeMap.getElem?_empty]
  rfl

/-- Whatever others make of the store, a shard keeps up with its reader as long as no round fails that
has told something new, and no longer. -/
theorem keepsUp_iff_no_lapse (turns : List Turn) :
    (∀ front, front <+: turns → KeepsUp (acts (.fresh id config, ⟨region, #[]⟩) front)) ↔
      ∀ front v back, turns = front ++ .round v :: back →
        ¬ Lapses v (acts (.fresh id config, ⟨region, #[]⟩) front) := by
  have fit : ∀ front, (acts (.fresh id config, ⟨region, #[]⟩) front).1.Fit := by
    intro front
    induction front using List.reverseRecOn with
    | nil => exact fit_fresh id config
    | append_singleton front turn ih =>
      rw [acts_concat]
      exact ih.act turn
  constructor
  · rintro all front v back rfl ⟨fault, after, failed, flow, moved⟩
    have before := all front (List.prefix_append ..)
    have behind := all (front ++ [.round v]) ⟨back, by rw [List.append_assoc, List.singleton_append]⟩
    rw [acts_concat] at behind
    unfold Shard.act at behind
    dsimp only at behind
    rw [failed] at behind
    apply moved
    rw [before flow, ← round_fails failed]
    exact behind flow
  · intro steady front leads
    induction front using List.reverseRecOn with
    | nil => exact keepsUp_fresh id config region
    | append_singleton front turn ih =>
      obtain ⟨back, rfl⟩ := leads
      rw [acts_concat]
      apply (ih ⟨turn :: back, by rw [List.append_assoc, List.singleton_append]⟩).act (fit front)
      rintro v rfl
      exact steady front v back (by rw [List.append_assoc, List.singleton_append])

def tornKey : FlowKey := .pack ⟨7⟩ .source ⟨100⟩

/-- A region whose directory was overwritten. Its first and last records both name a block of one byte;
the slot of the last is outside. -/
def torn : Region where
  handle := ⟨368, .memory 0⟩
  bytes :=
    let header := { Block.Header.fresh .l4Payload ⟨100⟩ 9 1000000 with
      isComplete := true, hasData := true, lastAccepted := ⟨100⟩ }
    { size := 368
      pages := (∅ : Std.ExtTreeMap Nat ByteArray).insert 0 <|
        Bytes.zeros 56 ++ Bytes.ofU32 3 ++ Bytes.zeros 68 ++ Entry.toBytes ⟨⟨tornKey, 1⟩, 1⟩ ++
          Entry.toBytes ⟨⟨tornKey, 0⟩, 0⟩ ++ Entry.toBytes ⟨⟨tornKey, 1⟩, 1000⟩ ++ Bytes.zeros 56 ++
          header.toBytes ++ Bytes.ofU32 100 ++ Bytes.ofU32 1 ++ ⟨#[100]⟩ }

def beforeTorn : Shard × Outlet :=
  act (.fresh 0 {}, ⟨torn, #[]⟩)
    (.claim ⟨⟨tornKey, 0⟩, .fresh .startFlow ⟨100⟩ 4 1000000, Bytes.ofU32 100, true⟩ 1200000)

/-- The round tells that the flow starts, and its byte, and then fails to free a slot that is not there. The
shard has read nothing of the flow and will tell both again. -/
theorem not_keepsUp_of_failed_round :
    ¬ ∀ (id : Nat) (config : ShardConfig) (region : Region) (turns : List Turn) (v : View)
      (fault : Fault) (after : Shard × Outlet),
        KeepsUp (acts (.fresh id config, ⟨region, #[]⟩) turns) →
        Shard.round v (acts (.fresh id config, ⟨region, #[]⟩) turns) = .error fault after →
        KeepsUp after := by
  intro all
  have before : KeepsUp beforeTorn := (keepsUp_fresh 0 {} torn).act (fit_fresh 0 {}) nofun
  have lost : (match Shard.round ⟨⟨9, 3, by decide, by decide, by decide⟩, 100000, 1400000⟩
        beforeTorn with
      | .ok _ _ => false
      | .error _ after => decide (knownAfter? ⟨7⟩ none after.2.events.toList ≠
          some (after.1.known ⟨7⟩))) = true := by decide +kernel
  split at lost
  · cases lost
  · next fault after failed =>
    exact of_decide_eq_true lost (all 0 {} torn [.claim _ _] _ fault after before failed ⟨7⟩)

end Shard

end Reassembly.Delivery
