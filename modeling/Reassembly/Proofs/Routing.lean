import Reassembly.Delivery.Shift
import Reassembly.Proofs.Drains

/-!
A poll as a function of catalogs. Asked again and again, the rotation goes through the ready markers of
a store in their cyclic order and comes back to the first one; so a poll routes each of them once, after
it has swept the store.
-/

namespace Reassembly

open Store Reading

namespace Store

variable {l : Layout} {cat : Catalog} {v : View}

theorem Catalog.rotated_perm (cat : Catalog) (rotation : Option Ref) :
    (cat.rotated rotation).Perm cat.items := by
  rw [rotated]
  exact List.perm_append_comm.trans (.of_eq (List.take_append_drop ..))

theorem Catalog.Distinct.rotated_step (separate : cat.Distinct) (ordered : cat.Ordered l)
    {rotation : Option Ref} {front back : List Item} {item : Item}
    (order : cat.rotated rotation = front ++ item :: back) :
    cat.rotated (some item.ref) = back ++ front ++ [item] := by
  have placed : ∀ {early late : List Item}, cat.items = early ++ item :: late →
      cat.rotated (some item.ref) = late ++ (early ++ [item]) := by
    intro early late parts
    have length : cat.items.length = early.length + 1 + late.length := by
      rw [parts, List.length_append, List.length_cons]
      omega
    have split : cat.items = (early ++ [item]) ++ late := by
      rw [parts, List.append_assoc, List.singleton_append]
    have size : (early ++ [item]).length = early.length + 1 := List.length_append
    rw [rotated, Option.map_some, Option.getD_some, separate.through_ref ordered parts]
    cases late with
    | nil =>
      rw [length, List.length_nil, Nat.add_zero, Nat.mod_self, List.drop_zero, List.take_zero,
        List.append_nil, split, List.append_nil, List.nil_append]
    | cons following rest =>
      rw [List.length_cons] at length
      rw [Nat.mod_eq_of_lt (by omega), split, ← size, List.drop_left, List.take_left]
  rw [rotated] at order
  generalize (rotation.map fun ref => cat.through ref % cat.items.length).getD 0 = cut at order
  have whole := (List.take_append_drop cut cat.items).symm
  generalize cat.items.take cut = early at order whole
  generalize cat.items.drop cut = late at order whole
  rcases List.append_eq_append_iff.mp order with ⟨rest, rfl, rfl⟩ | ⟨rest, rfl, parts⟩
  · rw [placed
      (by rw [whole, List.append_assoc, List.cons_append])]
    simp only [List.append_assoc]
  · cases rest with
    | nil =>
      rw [List.nil_append] at parts
      rw [@placed [] (back ++ front) (by rw [whole, ← parts, List.append_nil]; rfl)]
      simp only [List.append_assoc, List.nil_append]
    | cons other rest =>
      obtain ⟨rfl, rfl⟩ := List.cons.inj parts
      rw [placed (by rw [whole, List.append_assoc])]
      simp only [List.append_assoc, List.append_eq]

theorem Item.turn_of_ready {front back : List Item} {item : Item} (rotation : Option Ref)
    (misses : ∀ other ∈ front, ¬ other.isReadyMarker v = true) (ready : item.isReadyMarker v = true) :
    Item.turn v (front ++ item :: back) rotation = (some item, some item.ref) := by
  induction front generalizing rotation with
  | nil => rw [List.nil_append, turn, if_pos ready]
  | cons other rest ih =>
    rw [List.cons_append, turn, if_neg (misses other List.mem_cons_self)]
    exact ih _ fun next later => misses next (List.mem_cons_of_mem _ later)

theorem Item.turn_of_none {items : List Item} (rotation : Option Ref)
    (misses : ∀ other ∈ items, ¬ other.isReadyMarker v = true) :
    (Item.turn v items rotation).1 = none := by
  induction items generalizing rotation with
  | nil => rfl
  | cons other rest ih =>
    rw [turn, if_neg (misses other List.mem_cons_self)]
    exact ih _ fun next later => misses next (List.mem_cons_of_mem _ later)

theorem Item.turn_cons (item : Item) (items : List Item) (first second : Option Ref) :
    Item.turn v (item :: items) first = Item.turn v (item :: items) second := by
  rw [turn, turn]

theorem exists_first {α : Type} (test : α → Bool) (xs : List α) :
    (∀ x ∈ xs, ¬ test x = true) ∨
      ∃ front x back, xs = front ++ x :: back ∧ (∀ y ∈ front, ¬ test y = true) ∧ test x = true := by
  cases found : xs.find? test with
  | none => exact .inl (List.find?_eq_none.mp found)
  | some x =>
    obtain ⟨passes, front, back, parts, misses⟩ := List.find?_eq_some_iff_append.mp found
    exact .inr ⟨front, x, back, parts, fun y early => by simpa using misses y early, passes⟩

end Store

namespace Delivery

def Team.routed (now : Micros) (t : Team) (marker : Stored) : Team := (t.route marker now {}).2

theorem Team.route_snd (marker : Stored) (now : Micros) (stats : PollStats) (t : Team) :
    (t.route marker now stats).2 = t.routed now marker := by
  rw [routed, route, route]
  dsimp only
  split
  · rfl
  · rfl

def dueMarkers (v : View) (order : List Item) : List Stored :=
  (order.filter (Item.isReadyMarker v)).map (Item.stored v)

theorem dueMarkers_of_none {v : View} {order : List Item} (none : ∀ item ∈ order, ¬ item.isReadyMarker v = true) :
    dueMarkers v order = [] := by
  rw [dueMarkers, List.filter_eq_nil_iff.mpr none, List.map_nil]

theorem dueMarkers_first {v : View} {front : List Item} (misses : ∀ item ∈ front, ¬ item.isReadyMarker v = true)
    {item : Item} (ready : item.isReadyMarker v = true) (back : List Item) :
    dueMarkers v (front ++ item :: back) = item.stored v :: dueMarkers v back := by
  rw [dueMarkers, List.filter_append, List.filter_eq_nil_iff.mpr misses, List.nil_append,
    List.filter_cons_of_pos ready, List.map_cons, dueMarkers]

def Team.polled (now : Micros) (markers : List Stored) (t : Team) : Team :=
  ((markers.foldl (Team.routed now) (t.notePoll now)).releaseWhenDue now).2

namespace Shift

variable {team : Team} {a : Attachment} {r : Region} {events : Array Event} {cat : Catalog}

theorem nextMarker_run (carries : Carries a.layout r cat) (now : Micros) :
    onHandle (Attachment.nextMarker now) ⟨team, a, r, events⟩ =
      .ok ((Item.turn (a.view now) (cat.rotated a.rotation) a.rotation).1.map
          (Item.stored (a.view now)))
        ⟨team, { a with
          rotation := (Item.turn (a.view now) (cat.rotated a.rotation) a.rotation).2 }, r, events⟩ := by
  simp only [onHandle, Work.onPart, Attachment.nextMarker_run carries now]

theorem onTeam_run {α : Type} (step : Team → α × Team) :
    onTeam step ⟨team, a, r, events⟩ = .ok (step team).1 ⟨(step team).2, a, r, events⟩ := rfl

theorem routeReady_none (carries : Carries a.layout r cat) (now : Micros) (turns : Nat)
    {todo done : List Item} (order : cat.rotated a.rotation = todo ++ done) {seen : List Ref}
    (past : ∀ item ∈ done, item.isReadyMarker (a.view now) = true → item.ref ∈ seen)
    (begun : done = [] ∨ ∃ item ∈ done, item.isReadyMarker (a.view now) = true)
    (none_due : ∀ item ∈ todo, ¬ item.isReadyMarker (a.view now) = true) (stats : PollStats) :
    routeReady now (turns + 1) seen stats ⟨team, a, r, events⟩ =
      .ok stats ⟨team, { a with rotation := (Item.turn (a.view now) (done ++ todo) a.rotation).2 }, r, events⟩ := by
  rw [routeReady, Work.bind_ok (nextMarker_run carries now)]
  rcases exists_first (Item.isReadyMarker (a.view now)) done with
    none_done | ⟨front, item, back, parts, misses, ready⟩
  · obtain rfl : done = [] := begun.resolve_right fun ⟨item, listed, ready⟩ =>
      none_done item listed ready
    rw [order, List.append_nil, List.nil_append, Item.turn_of_none _ none_due]
    rfl
  · have stop := (@Store.Item.turn_of_ready (a.view now) (todo ++ front) back)
      a.rotation (fun other listed =>
        (List.mem_append.mp listed).elim (none_due other) (misses other)) ready
    rw [List.append_assoc, ← parts] at stop
    have known : (item.stored (a.view now)).ref ∈ seen :=
      past item (parts ▸ List.mem_append_right _ List.mem_cons_self) ready
    have same := (@Store.Item.turn_of_ready (a.view now) front (back ++ todo))
      a.rotation misses ready
    rw [order, stop, parts, List.append_assoc, List.cons_append, same]
    dsimp only [Option.map_some]
    rw [if_pos known]
    rfl

/-- What is still to be visited is routed; what was visited is not routed again. The rotation stops
where its first turn did. -/
theorem routeReady_run (carries : Carries a.layout r cat) (separate : cat.Distinct) (now : Micros)
    (turns : Nat) {todo done : List Item} (order : cat.rotated a.rotation = todo ++ done)
    {seen : List Ref} (fresh : ∀ item ∈ todo, item.ref ∉ seen)
    (past : ∀ item ∈ done, item.isReadyMarker (a.view now) = true → item.ref ∈ seen)
    (begun : done = [] ∨ ∃ item ∈ done, item.isReadyMarker (a.view now) = true)
    (enough : todo.length < turns) (stats : PollStats) :
    ∃ stats', routeReady now turns seen stats ⟨team, a, r, events⟩ =
      .ok stats' ⟨(dueMarkers (a.view now) todo).foldl (Team.routed now) team,
        { a with rotation := (Item.turn (a.view now) (done ++ todo) a.rotation).2 }, r, events⟩ := by
  induction turns generalizing todo done seen team a stats with
  | zero => exact absurd enough (Nat.not_lt_zero _)
  | succ turns ih =>
    rcases exists_first (Item.isReadyMarker (a.view now)) todo with
      none_due | ⟨front, item, back, rfl, misses, ready⟩
    · rw [dueMarkers_of_none none_due, List.foldl_nil]
      exact ⟨stats, routeReady_none carries now turns order past begun none_due stats⟩
    · have stop := (@Store.Item.turn_of_ready (a.view now) _ (back ++ done)) a.rotation misses ready
      have next := separate.rotated_step carries.ordered (order.trans
        (show (front ++ item :: back) ++ done = front ++ item :: (back ++ done) by
          rw [List.append_assoc, List.cons_append]))
      rw [List.append_assoc, List.cons_append] at order
      have unseen : (item.stored (a.view now)).ref ∉ seen :=
        fresh item (List.mem_append_right _ List.mem_cons_self)
      have apart : (front ++ item :: (back ++ done)).Pairwise fun a b => a.ref ≠ b.ref :=
        order ▸ ((cat.rotated_perm a.rotation).pairwise_iff fun apart => apart.symm).mpr
          separate
      have behind := (List.pairwise_cons.mp (List.pairwise_append.mp apart).2.1).1
      rw [routeReady, Work.bind_ok (nextMarker_run carries now), order, stop]
      dsimp only [Option.map_some]
      rw [if_neg unseen, Work.bind_ok (onTeam_run _), Team.route_snd]
      have fresh' : ∀ other ∈ back, other.ref ∉ item.ref :: seen := by
        intro other later listed
        rcases List.mem_cons.mp listed with same | old
        · exact behind other (List.mem_append_left _ later) same.symm
        · exact fresh other (List.mem_append_right _ (List.mem_cons_of_mem _ later)) old
      have past' : ∀ other ∈ done ++ front ++ [item], other.isReadyMarker (a.view now) = true →
          other.ref ∈ item.ref :: seen := by
        intro other listed due
        rcases List.mem_append.mp listed with visited | last
        · rcases List.mem_append.mp visited with old | passed
          · exact List.mem_cons_of_mem _ (past other old due)
          · exact absurd due (misses other passed)
        · rw [List.mem_singleton.mp last]
          exact List.mem_cons_self
      have order' : cat.rotated (some item.ref) = back ++ (done ++ front ++ [item]) := by
        rw [next]
        simp only [List.append_assoc]
      have enough' : back.length < turns := by
        rw [List.length_append, List.length_cons] at enough
        omega
      obtain ⟨stats', ran⟩ := ih (a := { a with rotation := some item.ref }) carries order' fresh' past'
        (.inr ⟨item, List.mem_append_right _ (List.mem_singleton_self _), ready⟩) enough'
        (Team.route (item.stored (a.view now)) now stats team).1
      have again : (done ++ front ++ [item]) ++ back = done ++ (front ++ item :: back) := by
        simp only [List.append_assoc, List.singleton_append]
      have visited : (Item.turn (a.view now) (done ++ (front ++ item :: back)) (some item.ref)).2 =
          (Item.turn (a.view now) (done ++ (front ++ item :: back)) a.rotation).2 := by
        obtain ⟨head, tail, whole⟩ := List.exists_cons_of_ne_nil
          (l := done ++ (front ++ item :: back)) (by simp)
        rw [whole, Item.turn_cons]
      refine ⟨stats', ran.trans ?_⟩
      rw [dueMarkers_first misses ready, List.foldl_cons, again, ← visited]
      rfl

def polled (a : Attachment) (now : Micros) (cat : Catalog) : Attachment where
  handle := a.handle
  layout := a.layout
  config := a.config
  writers := Sweep.keepFresh a.writers now a.config.writerFlowTimeout
  rotation := (Item.turn (a.view now)
    ((cat.swept a.config.blockIdleTimeout now).rotated a.rotation) a.rotation).2

theorem poll_run (carries : Carries a.layout r cat) (separate : cat.Distinct) {now : Micros}
    (due : team.tooSoon now = false) :
    ∃ stats r', Shift.poll now ⟨team, a, r, events⟩ =
        .ok stats ⟨team.polled now (dueMarkers (a.view now)
            ((cat.swept a.config.blockIdleTimeout now).rotated a.rotation)),
          polled a now cat, r', events⟩ ∧
      Carries a.layout r' (cat.swept a.config.blockIdleTimeout now) := by
  obtain ⟨r', swept, carries'⟩ := Attachment.sweep_run carries now
  have separate' := separate.swept a.config.blockIdleTimeout now
  have handled : onHandle (Attachment.sweep now) ⟨team.notePoll now, a, r, events⟩ =
      .ok (cat.items.countP (Item.isIdle a.config.blockIdleTimeout now))
        ⟨team.notePoll now, { a with
          writers := Sweep.keepFresh a.writers now a.config.writerFlowTimeout }, r', events⟩ := by
    simp only [onHandle, Work.onPart, swept]
  have few : ((cat.swept a.config.blockIdleTimeout now).rotated a.rotation).length <
      a.layout.maxBlocks.toNat + 1 := by
    rw [((cat.swept a.config.blockIdleTimeout now).rotated_perm a.rotation).length_eq]
    exact Nat.lt_succ_of_le (Holds.length_le (carries' : Holds _ _ _))
  obtain ⟨stats, routed⟩ := routeReady_run
    (a := { a with writers := Sweep.keepFresh a.writers now a.config.writerFlowTimeout })
    carries' separate' now (a.layout.maxBlocks.toNat + 1)
    (List.append_nil _).symm (fun _ _ => List.not_mem_nil)
    (fun _ listed => absurd listed List.not_mem_nil) (.inl rfl) few
    { ran := true, closed := cat.items.countP (Item.isIdle a.config.blockIdleTimeout now) }
  refine ⟨{ stats with released := (Team.releaseWhenDue now (List.foldl (Team.routed now)
    (team.notePoll now) (dueMarkers (a.view now)
      ((cat.swept a.config.blockIdleTimeout now).rotated a.rotation)))).1 }, r', ?_, carries'⟩
  rw [Shift.poll, Work.bind_ok (Work.get_run _)]
  dsimp only
  rw [if_neg (by rw [due]; exact Bool.false_ne_true), Work.bind_ok (onTeam_run _),
    Work.bind_ok handled, Work.bind_ok routed, Work.bind_ok (onTeam_run _), Work.pure_run]
  rfl

theorem poll_tooSoon {now : Micros} (early : team.tooSoon now = true) :
    Shift.poll now ⟨team, a, r, events⟩ = .ok {} ⟨team, a, r, events⟩ := by
  rw [Shift.poll, Work.bind_ok (Work.get_run _)]
  dsimp only
  rw [if_pos early, Work.pure_run]

end Shift

end Delivery

end Reassembly
