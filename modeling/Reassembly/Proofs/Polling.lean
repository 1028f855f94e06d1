import Reassembly.Proofs.Dealing

/-!
The loop of a poll. It asks for the next marker until there is none or one comes back that it has seen,
and routes each; that it ends is not for lack of turns. What it routes is one round of the rotation, and
the sweep before it leaves the ready markers as they are.
-/

namespace Reassembly

open Store Reading

namespace Store

theorem Item.isReadyMarker_swept (v : View) (item : Item) :
    (item.swept v.idle v.now).isReadyMarker v = item.isReadyMarker v ∧
      (item.isReadyMarker v = true → item.swept v.idle v.now = item) := by
  rw [swept]
  split
  · next idle =>
    have open_ : item.header.isComplete = false := by
      rw [isIdle, Bool.and_eq_true, Bool.not_eq_true'] at idle
      exact idle.1
    have before : item.isReadyMarker v = false := by
      rw [isReadyMarker, Block.Header.isReady, open_, Bool.false_and, Bool.and_false]
    refine ⟨?_, fun ready => absurd ready (by rw [before]; exact Bool.false_ne_true)⟩
    rw [before, isReadyMarker, Block.Header.isReady, Block.Header.expired]
    dsimp only
    rw [elapsed_self]
    simp
  · exact ⟨rfl, fun _ => rfl⟩

theorem Catalog.ready_swept (cat : Catalog) (v : View) : (cat.swept v.idle v.now).ready v = cat.ready v := by
  have test : Item.isReadyMarker v ∘ Item.swept v.idle v.now = Item.isReadyMarker v :=
    funext fun item => (item.isReadyMarker_swept v).1
  rw [ready, swept, List.filter_map, test, ready]
  refine (List.map_congr_left fun item listed => ?_).trans (List.map_id _)
  exact (item.isReadyMarker_swept v).2 (List.mem_filter.mp listed).2

end Store

namespace Delivery.Shift

/-- How the loop of a poll goes, from the references that it has seen: it ends when there is no marker to
be had, or when one comes back; else it routes the marker and goes on. It routes the markers listed. -/
inductive Routing (now : Micros) : List Ref → PollStats → Shift → List Stored → PollStats → Shift → Prop
  | nothing {seen : List Ref} {stats : PollStats} {s s' : Shift}
      (asked : onHandle (Attachment.nextMarker now) s = .ok none s') : Routing now seen stats s [] stats s'
  | back {seen : List Ref} {stats : PollStats} {s s' : Shift} {marker : Stored}
      (asked : onHandle (Attachment.nextMarker now) s = .ok (some marker) s') (known : marker.ref ∈ seen) :
      Routing now seen stats s [] stats s'
  | route {seen : List Ref} {stats stats' : PollStats} {s s' s'' : Shift} {marker : Stored} {markers : List Stored}
      (asked : onHandle (Attachment.nextMarker now) s = .ok (some marker) s') (unseen : marker.ref ∉ seen)
      (others : Routing now (marker.ref :: seen) (s'.team.route marker now stats).1
        { s' with team := (s'.team.route marker now stats).2 } markers stats' s'') :
      Routing now seen stats s (marker :: markers) stats' s''

/-- How a poll goes that is not too soon: it sweeps, the loop routes the markers listed and leaves a count
and a team, and then assignments are released if it is time. -/
inductive Polls (now : Micros) (s : Shift) : List Stored → PollStats → Team → PollStats → Shift → Prop
  | poll {closed : Nat} {swept routed : Shift} {markers : List Stored} {stats : PollStats}
      (due : s.team.tooSoon now = false)
      (sweep : onHandle (Attachment.sweep now) { s with team := s.team.notePoll now } = .ok closed swept)
      (routing : Routing now [] { ran := true, closed } swept markers stats routed) :
      Polls now s markers stats routed.team { stats with released := (routed.team.releaseWhenDue now).1 }
        { routed with team := (routed.team.releaseWhenDue now).2 }

variable {team : Team} {a : Attachment} {r : Region} {events : Array Event} {cat : Catalog}

theorem routing_run (carries : Carries a.layout r cat) (now : Micros) (turns : Nat) {todo done : List Item}
    (round : Item.round (cat.ready (a.view now)) a.rotation = todo ++ done) {seen : List Ref}
    (fresh : ∀ item ∈ todo, item.ref ∉ seen) (past : ∀ item ∈ done, item.ref ∈ seen) (enough : todo.length < turns)
    (stats : PollStats) :
    ∃ rotation,
      let routed := Team.routeAll now (todo.map (Item.stored (a.view now))) stats team
      routeReady now turns seen stats ⟨team, a, r, events⟩ =
        .ok routed.1 ⟨routed.2, { a with rotation }, r, events⟩ ∧
      Routing now seen stats ⟨team, a, r, events⟩ (todo.map (Item.stored (a.view now))) routed.1
        ⟨routed.2, { a with rotation }, r, events⟩ := by
  induction turns generalizing todo done seen team a stats with
  | zero => exact absurd enough (Nat.not_lt_zero _)
  | succ turns ih =>
    have asked := @nextMarker_run team a _ events _ carries now
    have first := carries.ordered.turn_eq (a.view now) a.rotation
    rw [round] at first
    rw [routeReady, Work.bind_ok asked]
    cases todo with
    | nil =>
      cases done with
      | nil =>
        rw [List.append_nil, List.head?_nil] at first
        rw [first, Option.map_none] at asked ⊢
        exact ⟨_, rfl, .nothing asked⟩
      | cons item rest =>
        rw [List.nil_append, List.head?_cons] at first
        have known : (item.stored (a.view now)).ref ∈ seen := past item List.mem_cons_self
        rw [first, Option.map_some] at asked ⊢
        dsimp only
        rw [if_pos known]
        exact ⟨_, rfl, .back asked known⟩
    | cons item rest =>
      rw [List.cons_append, List.head?_cons] at first
      have unseen : (item.stored (a.view now)).ref ∉ seen := fresh item List.mem_cons_self
      have apart := Item.pairwise_firsts (Item.inTurn (cat.ready (a.view now)) a.rotation)
      change (Item.round _ _).Pairwise _ at apart
      rw [round, List.cons_append] at apart
      have others := (List.pairwise_cons.mp apart).1
      have next := Item.round_step (carries.ordered.sorted_ready _) round
      rw [List.append_eq, List.append_assoc] at next
      have fresh' : ∀ other ∈ rest, other.ref ∉ item.ref :: seen := fun other later listed => by
        rcases List.mem_cons.mp listed with same | old
        · exact others other (List.mem_append_left _ later) same.symm
        · exact fresh other (List.mem_cons_of_mem _ later) old
      have past' : ∀ other ∈ done ++ [item], other.ref ∈ item.ref :: seen := fun other listed => by
        rcases List.mem_append.mp listed with old | last
        · exact List.mem_cons_of_mem _ (past other old)
        · rw [List.mem_singleton.mp last]
          exact List.mem_cons_self
      obtain ⟨rotation, ran, routing⟩ := @ih (team.route (item.stored (a.view now)) now stats).2
        { a with rotation := some item.ref } carries rest (done ++ [item]) next (item.ref :: seen) fresh' past'
        (Nat.lt_of_succ_lt_succ enough) (team.route (item.stored (a.view now)) now stats).1
      rw [first, Option.map_some, Item.turn_snd first] at asked ⊢
      dsimp only
      rw [if_neg unseen, Work.bind_ok (onTeam_run _), List.map_cons, Team.routeAll]
      exact ⟨rotation, ran, .route asked unseen routing⟩

def met (a : Attachment) (now : Micros) (cat : Catalog) : List Stored :=
  (Item.round (cat.ready (a.view now)) a.rotation).map (Item.stored (a.view now))

theorem poll_routes (carries : Carries a.layout r cat) {now : Micros} (due : team.tooSoon now = false) :
    ∃ rotation r' closed,
      let routed := Team.routeAll now (met a now cat) { ran := true, closed } (team.notePoll now)
      let stats := { routed.1 with released := (routed.2.releaseWhenDue now).1 }
      let s' : Shift := ⟨(routed.2.releaseWhenDue now).2,
        { a with writers := Sweep.keepFresh a.writers now a.config.writerFlowTimeout, rotation }, r', events⟩
      Shift.poll now ⟨team, a, r, events⟩ = .ok stats s' ∧
        Polls now ⟨team, a, r, events⟩ (met a now cat) routed.1 routed.2 stats s' ∧
        Carries a.layout r' (cat.swept a.config.blockIdleTimeout now) := by
  obtain ⟨r', swept, carries'⟩ := Attachment.sweep_run carries now
  have handled : onHandle (Attachment.sweep now) ⟨team.notePoll now, a, r, events⟩ =
      .ok (cat.items.countP (Item.isIdle a.config.blockIdleTimeout now))
        ⟨team.notePoll now, { a with
          writers := Sweep.keepFresh a.writers now a.config.writerFlowTimeout }, r', events⟩ := by
    simp only [onHandle, Work.onPart, swept]
  have same : (cat.swept a.config.blockIdleTimeout now).ready (a.view now) = cat.ready (a.view now) :=
    cat.ready_swept (a.view now)
  have few : (Item.round (cat.ready (a.view now)) a.rotation).length < a.layout.maxBlocks.toNat + 1 := by
    have short := (Item.firsts_sublist (Item.inTurn (cat.ready (a.view now)) a.rotation)).length_le
    have ready : (cat.ready (a.view now)).length ≤ cat.items.length := List.length_filter_le ..
    have whole := (Item.perm_inTurn (cat.ready (a.view now)) a.rotation).length_eq
    have most := Holds.length_le (carries : Holds _ _ _)
    rw [Item.round]
    omega
  have round : Item.round ((cat.swept a.config.blockIdleTimeout now).ready (a.view now)) a.rotation =
      Item.round (cat.ready (a.view now)) a.rotation ++ [] := by
    rw [same, List.append_nil]
  obtain ⟨rotation, ran, routing⟩ := @routing_run (team.notePoll now)
    { a with writers := Sweep.keepFresh a.writers now a.config.writerFlowTimeout } r' events _ carries' now
    (a.layout.maxBlocks.toNat + 1) (Item.round (cat.ready (a.view now)) a.rotation) [] round []
    (fun _ _ => List.not_mem_nil) (fun _ listed => absurd listed List.not_mem_nil) few
    { ran := true, closed := cat.items.countP (Item.isIdle a.config.blockIdleTimeout now) }
  refine ⟨rotation, r', cat.items.countP (Item.isIdle a.config.blockIdleTimeout now), ?_, ?_, carries'⟩
  · rw [Shift.poll, Work.bind_ok (Work.get_run _)]
    dsimp only
    rw [if_neg (by rw [due]; exact Bool.false_ne_true), Work.bind_ok (onTeam_run _),
      Work.bind_ok handled, Work.bind_ok ran, Work.bind_ok (onTeam_run _), Work.pure_run]
    rfl
  · exact Polls.poll (s := ⟨team, a, r, events⟩) due handled routing

theorem poll_found (carries : Carries a.layout r cat) {now : Micros} (due : team.tooSoon now = false) :
    ∃ stats markers rotation r', Shift.poll now ⟨team, a, r, events⟩ =
        .ok stats ⟨team.polled now markers,
          { a with writers := Sweep.keepFresh a.writers now a.config.writerFlowTimeout, rotation }, r', events⟩ ∧
      Carries a.layout r' (cat.swept a.config.blockIdleTimeout now) := by
  obtain ⟨rotation, r', closed, ran, _, carries'⟩ := @poll_routes team a r events cat carries now due
  rw [Team.routeAll_snd] at ran
  exact ⟨_, _, rotation, r', ran, carries'⟩

end Delivery.Shift

end Reassembly
