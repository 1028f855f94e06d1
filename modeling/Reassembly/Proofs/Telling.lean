import Reassembly.Proofs.Chronicle
import Reassembly.Proofs.Fates
import Reassembly.Proofs.Spreading

/-!
Draining a flow tells of it as the law says. The reader knows of the flow what its position says; a
position that was never announced has read nothing, and one that starts anew has met a marker too far from
what was read. All bytes that are told come from frames of the blocks.
-/

namespace Reassembly

open Reading

namespace Block.Frame

theorem cutFrom_self (f : Frame) : f.CutFrom f.start f.data :=
  ⟨0, by omega, (Seq.advance_zero _).symm, by rw [Bytes.slice, Nat.zero_add, ByteArray.extract_zero_size]⟩

theorem cutFrom_rest (f : Frame) {seen : Nat} (inside : seen ≤ f.data.size) :
    (⟨f.start.advance seen, f.data.extract seen f.data.size⟩ : Frame).CutFrom f.start f.data := by
  have size : (f.data.extract seen f.data.size).size = f.data.size - seen := by
    rw [ByteArray.size_extract, Nat.min_self]
  refine ⟨seen, ?_, rfl, ?_⟩
  · dsimp only
    omega
  · dsimp only
    rw [Bytes.slice, size, Nat.add_sub_cancel' inside]

end Block.Frame

namespace Delivery

def marksAt (expected : PerSide (Option Seq)) : PerSide Mark :=
  ⟨.upTo expected.source, .upTo expected.destination⟩

theorem get_marksAt (expected : PerSide (Option Seq)) (side : Side) :
    (marksAt expected).get side = .upTo (expected.get side) := by
  cases side <;> rfl

theorem marksAt_set (expected : PerSide (Option Seq)) (next : Option Seq) (side : Side) :
    marksAt (expected.set next side) = (marksAt expected).set (.upTo next) side := by
  cases side <;> rfl

theorem set_marksAt (marks : PerSide Mark) {next : Option Seq} {side : Side}
    (here : marks.get side = .upTo next) : marks.set (.upTo next) side = marks := by
  cases side <;> rw [← here] <;> rfl

theorem set_set {α : Type} (p : PerSide α) (first second : α) (side : Side) :
    (p.set first side).set second side = p.set second side := by
  cases side <;> rfl

/-- What a reader knows of a flow that stands at a position. -/
def Position.known (p : Position) : Option (PerSide Mark) :=
  if p.announced then some (marksAt p.expected) else none

theorem Position.known_of_announced {p : Position} (announced : p.announced = true) :
    p.known = some (marksAt p.expected) := if_pos announced

def Position.Apt (p : Position) : Prop := p.announced = false → p.expected = .both none

def Restarts (expected : PerSide (Option Seq)) (marker : Stored) : Prop :=
  ∃ next, expected.get marker.side = some next ∧
    continuationWindow < Seq.distance marker.announcedSeq next ∧
    continuationWindow < Seq.distance next marker.announcedSeq

theorem Position.continuesAt_eq_false {p : Position} {marker : Stored} :
    p.continuesAt marker = false ↔ Restarts p.expected marker := by
  rw [continuesAt, Restarts]
  cases p.expected.get marker.side with
  | none => exact iff_of_false nofun nofun
  | some next => simp

variable {flow : FlowId} {side : Side}

/-- After some markers a position has read what it had, or it starts anew at one of them that is too far
from that. -/
theorem adoptAll_cases (p : Position) (markers : List Stored) (now : Micros) :
    let after := adoptAll p markers now
    after.announced = p.announced ∧ after.expected = p.expected ∨
      after.announced = false ∧ after.expected = .both none ∧
        ∃ marker ∈ markers, Restarts p.expected marker ∧ after.initialSeq = marker.announcedSeq := by
  dsimp only
  induction markers using List.reverseRecOn with
  | nil => exact .inl ⟨rfl, rfl⟩
  | append_singleton front marker ih =>
    have last : adoptAll p (front ++ [marker]) now = (adoptAll p front now).adopt marker now :=
      List.foldl_concat ..
    rw [last]
    generalize adoptAll p front now = q at ih
    have later {found : Position} (met : ∃ marker ∈ front,
        Restarts p.expected marker ∧ found.initialSeq = marker.announcedSeq) :
        ∃ other ∈ front ++ [marker], Restarts p.expected other ∧ found.initialSeq = other.announcedSeq := by
      obtain ⟨other, listed, met⟩ := met
      exact ⟨other, List.mem_append_left _ listed, met⟩
    rw [Position.adopt]
    split
    · exact ih.imp id fun restarted => ⟨restarted.1, restarted.2.1, later restarted.2.2⟩
    · split
      · exact ih.imp id fun restarted => ⟨restarted.1, restarted.2.1, later restarted.2.2⟩
      · next ends =>
        have far := Position.continuesAt_eq_false.mp (Bool.eq_false_iff.mpr ends)
        rcases ih with ⟨_, same⟩ | ⟨_, unread, _⟩
        · rw [same] at far
          exact .inr ⟨rfl, rfl, marker, List.mem_append_right _ (List.mem_singleton_self _), far, rfl⟩
        · obtain ⟨next, read, _⟩ := far
          rw [unread, PerSide.get_both] at read
          cases read

theorem knownAfter?_deliverFrame {marks : PerSide Mark} {expected : Option Seq} (here : marks.get side = .upTo expected)
    (f : Block.Frame) : knownAfter? flow (some marks) (deliverFrame flow side expected f).1 =
      some (some (marks.set (.upTo (deliverFrame flow side expected f).2) side)) := by
  cases expected with
  | none =>
    apply knownAfter?_data
    rw [here]
    trivial
  | some next =>
    have due : marks.get side = .due next := here
    unfold deliverFrame
    dsimp only
    split
    · split
      · rw [set_marksAt marks here]
        rfl
      · apply knownAfter?_data
        rw [due]
        rfl
    · next reached =>
      split
      · next same =>
        rw [Block.Frame.stop, same]
        apply knownAfter?_data
        rw [due]
        rfl
      · next apart =>
        have ahead : 0 < Seq.distance next f.start := by
          apply Nat.pos_of_ne_zero
          intro zero
          have walked := Seq.advance_distance next f.start
          rw [zero, Seq.advance_zero] at walked
          exact apart walked.symm
        have near : Seq.distance next f.start < Seq.halfTurn :=
          Nat.not_le.mp fun far => reached ((Seq.before_iff _ _).mpr far)
        have told : knownAfter? flow (some (marks.set (.skipped f.start) side))
            [.data flow side f.start f.data] =
              some (some ((marks.set (.skipped f.start) side).set (.due f.stop) side)) := by
          apply knownAfter?_data
          rw [PerSide.get_set_self]
          rfl
        rw [set_set] at told
        rw [← List.singleton_append, knownAfter?_append (knownAfter?_gap due ahead near)]
        exact told

theorem knownAfter?_deliverFrames {marks : PerSide Mark} {expected : Option Seq}
    (here : marks.get side = .upTo expected) (frames : List Block.Frame) :
    knownAfter? flow (some marks) (deliverFrames flow side expected frames).1 =
      some (some (marks.set (.upTo (deliverFrames flow side expected frames).2) side)) := by
  induction frames generalizing marks expected with
  | nil =>
    rw [deliverFrames, set_marksAt marks here]
    rfl
  | cons f rest ih =>
    have first := @knownAfter?_deliverFrame flow side marks expected here f
    have others := ih (PerSide.get_set_self marks (.upTo (deliverFrame flow side expected f).2) side)
    rw [set_set] at others
    rw [deliverFrames]
    exact (knownAfter?_append first _).trans others

def Event.Tells (flow : FlowId) (side : Side) (frames : List Block.Frame) (event : Event) : Prop :=
  (∃ expected resumedAt, event = .gap flow side expected resumedAt) ∨
    ∃ start bytes, event = .data flow side start bytes ∧
      ∃ f ∈ frames, (⟨start, bytes⟩ : Block.Frame).CutFrom f.start f.data

theorem deliverFrame_tells (expected : Option Seq) (f : Block.Frame) :
    ∀ event ∈ (deliverFrame flow side expected f).1, event.Tells flow side [f] := by
  have whole : (Event.data flow side f.start f.data).Tells flow side [f] :=
    .inr ⟨_, _, rfl, f, List.mem_singleton_self _, f.cutFrom_self⟩
  intro event listed
  cases expected with
  | none =>
    rw [List.mem_singleton.mp listed]
    exact whole
  | some next =>
    rw [deliverFrame] at listed
    dsimp only at listed
    split at listed
    · split at listed
      · exact absurd listed List.not_mem_nil
      · next more =>
        have cut := f.cutFrom_rest (Nat.le_of_lt (Nat.not_le.mp more))
        rw [Seq.advance_distance] at cut
        rw [List.mem_singleton.mp listed]
        exact .inr ⟨_, _, rfl, f, List.mem_singleton_self _, cut⟩
    · split at listed
      · next same =>
        rw [List.mem_singleton.mp listed, ← same]
        exact whole
      · rcases List.mem_cons.mp listed with rfl | last
        · exact .inl ⟨_, _, rfl⟩
        · rw [List.mem_singleton.mp last]
          exact whole

theorem deliverFrame_filled {expected : Option Seq} {f : Block.Frame} (filled : 0 < f.data.size)
    {other : FlowId} {part : Side} {start : Seq} {bytes : ByteArray}
    (told : .data other part start bytes ∈ (deliverFrame flow side expected f).1) : 0 < bytes.size := by
  cases expected with
  | none =>
    obtain ⟨⟩ := List.mem_singleton.mp told
    exact filled
  | some next =>
    unfold deliverFrame at told
    dsimp only at told
    split at told
    · split at told
      · exact absurd told List.not_mem_nil
      · next more =>
        obtain ⟨⟩ := List.mem_singleton.mp told
        rw [ByteArray.size_extract]
        omega
    · split at told
      · obtain ⟨⟩ := List.mem_singleton.mp told
        exact filled
      · rcases List.mem_cons.mp told with gap | last
        · cases gap
        · obtain ⟨⟩ := List.mem_singleton.mp last
          exact filled

theorem Event.Tells.mono {frames more : List Block.Frame} {event : Event}
    (tells : event.Tells flow side frames) (sub : ∀ f ∈ frames, f ∈ more) : event.Tells flow side more := by
  refine tells.imp id ?_
  rintro ⟨start, bytes, same, f, listed, cut⟩
  exact ⟨start, bytes, same, f, sub f listed, cut⟩

theorem mem_deliverFrames {expected : Option Seq} {frames : List Block.Frame} {event : Event}
    (told : event ∈ (deliverFrames flow side expected frames).1) :
    ∃ f ∈ frames, ∃ reached, event ∈ (deliverFrame flow side reached f).1 := by
  induction frames generalizing expected with
  | nil => exact absurd told List.not_mem_nil
  | cons f rest ih =>
    rcases List.mem_append.mp told with early | late
    · exact ⟨f, List.mem_cons_self, expected, early⟩
    · obtain ⟨g, later, found⟩ := ih late
      exact ⟨g, List.mem_cons_of_mem _ later, found⟩

theorem mem_of_ready {anchor : Seq} {blocks : List Stored} {block : Stored}
    (taken : block ∈ (drainOrder anchor (blocks.filter (·.header.kind.isPayload))).takeWhile (·.ready)) :
    block ∈ blocks :=
  (List.mem_filter.mp (List.mem_mergeSort.mp (List.takeWhile_subset _ taken))).1

theorem mem_sideDrained {now : Micros} {blocks : List Stored} {state : Drained} {event : Event}
    (told : event ∈ (sideDrained flow side now blocks state).2.2) :
    ∃ block ∈ blocks, ∃ f ∈ block.frames, ∃ reached, event ∈ (deliverFrame flow side reached f).1 := by
  unfold sideDrained at told
  dsimp only at told
  split at told
  · exact absurd told List.not_mem_nil
  · obtain ⟨f, present, found⟩ := mem_deliverFrames told
    obtain ⟨block, taken, inside⟩ := List.mem_flatMap.mp present
    exact ⟨block, mem_of_ready taken, f, inside, found⟩

theorem sideDrained_tells {now : Micros} {blocks : List Stored} (state : Drained) :
    ∀ event ∈ (sideDrained flow side now blocks state).2.2,
      event.Tells flow side (blocks.flatMap (·.frames)) := by
  intro event told
  obtain ⟨block, listed, f, inside, reached, found⟩ := mem_sideDrained told
  apply (deliverFrame_tells reached f event found).mono
  intro g here
  rw [List.mem_singleton.mp here]
  exact List.mem_flatMap.mpr ⟨block, listed, inside⟩

theorem knownAfter?_sideDrained (flow : FlowId) (side : Side) (now : Micros) (blocks : List Stored)
    (state : Drained) :
    let drained := sideDrained flow side now blocks state
    knownAfter? flow (some (marksAt state.position.expected)) drained.2.2 =
        some (some (marksAt drained.1.position.expected)) ∧
      drained.1.position.announced = state.position.announced := by
  dsimp only
  rw [sideDrained]
  dsimp only
  split
  · exact ⟨rfl, rfl⟩
  · refine ⟨?_, rfl⟩
    dsimp only
    rw [marksAt_set]
    exact knownAfter?_deliverFrames (get_marksAt ..) _

theorem Event.Tells.ne_started {frames : List Block.Frame} {event : Event}
    (tells : event.Tells flow side frames) (initialSeq : Seq) : event ≠ .started flow initialSeq := by
  rintro rfl
  rcases tells with ⟨_, _, same⟩ | ⟨_, _, same, _⟩
  · cases same
  · cases same

theorem announcement_started {p : Position} {rest front back : List Event} {initialSeq : Seq}
    (silent : ∀ event ∈ rest, ∀ initialSeq, event ≠ .started flow initialSeq)
    (parts : announcement flow p ++ rest = front ++ .started flow initialSeq :: back) :
    front = [] ∧ p.announced = false ∧ initialSeq = p.initialSeq := by
  have known : .started flow initialSeq ∉ rest := fun listed => silent _ listed _ rfl
  rw [announcement] at parts
  by_cases announced : p.announced = true
  · rw [if_pos announced, List.nil_append] at parts
    exact absurd (parts ▸ List.mem_append_right _ List.mem_cons_self) known
  · rw [if_neg announced] at parts
    cases front with
    | nil =>
      obtain ⟨same, _⟩ := List.cons.inj parts
      injection same with _ same
      exact ⟨rfl, Bool.eq_false_iff.mpr announced, same.symm⟩
    | cons first others =>
      have same : rest = others ++ .started flow initialSeq :: back := (List.cons.inj parts).2
      exact absurd (same ▸ List.mem_append_right _ List.mem_cons_self) known

theorem knownAfter?_restarted {expected : PerSide (Option Seq)} {marker : Stored}
    (far : Restarts expected marker) :
    knownAfter? flow (some (marksAt expected)) [.started flow marker.announcedSeq] =
      some (some (.both .unread)) := by
  obtain ⟨next, read, past⟩ := far
  have mark : ((marksAt expected).get marker.side).IsFar marker.announcedSeq := by
    rw [get_marksAt, read]
    exact past
  rw [knownAfter?_single, Event.next?]
  refine (if_pos rfl).trans (if_pos ?_)
  cases part : marker.side with
  | source =>
    rw [part] at mark
    exact .inl mark
  | destination =>
    rw [part] at mark
    exact .inr mark

theorem knownAfter?_announcement {p after : Position} (apt : p.Apt)
    (adopted : after.announced = p.announced ∧ after.expected = p.expected ∨
      after.announced = false ∧ after.expected = .both none ∧
        ∃ marker, Restarts p.expected marker ∧ after.initialSeq = marker.announcedSeq) :
    knownAfter? flow p.known (announcement flow after) = some (some (marksAt after.expected)) := by
  have begins : p.known = none → knownAfter? flow p.known [.started flow after.initialSeq] =
      some (some (.both .unread)) := by
    intro unknown
    rw [unknown, knownAfter?_single, Event.next?]
    exact if_pos rfl
  unfold announcement
  by_cases announced : p.announced = true
  · rw [Position.known_of_announced announced]
    rcases adopted with ⟨same, expected⟩ | ⟨silent, unread, marker, far, here⟩
    · rw [same, if_pos announced, expected]
      rfl
    · rw [silent, if_neg Bool.false_ne_true, here, unread]
      exact knownAfter?_restarted far
  · have unknown : p.known = none := if_neg announced
    have unread : after.announced = false ∧ after.expected = .both none := by
      rcases adopted with ⟨same, expected⟩ | ⟨silent, unread, _⟩
      · have silent := Bool.eq_false_iff.mpr announced
        exact ⟨same.trans silent, expected.trans (apt silent)⟩
      · exact ⟨silent, unread⟩
    rw [unread.1, if_neg Bool.false_ne_true, unread.2]
    exact begins unknown

variable {v : View} {p : Position} {source destination : List Stored}

theorem mem_drainedFrom {event : Event} (listed : event ∈ (drainedFrom v flow p source destination).2.2) :
    (∃ initialSeq, event = .started flow initialSeq) ∨
      (∃ state, event ∈ (sideDrained flow .source v.now source state).2.2) ∨
      ∃ state, event ∈ (sideDrained flow .destination v.now destination state).2.2 := by
  unfold drainedFrom at listed
  dsimp only at listed
  rw [List.append_assoc] at listed
  rcases List.mem_append.mp listed with new | stream
  · unfold announcement at new
    split at new
    · exact absurd new List.not_mem_nil
    · exact .inl ⟨_, List.mem_singleton.mp new⟩
  · rcases List.mem_append.mp stream with first | second
    · exact .inr (.inl ⟨_, first⟩)
    · exact .inr (.inr ⟨_, second⟩)

theorem drainedFrom_tells : ∀ event ∈ (drainedFrom v flow p source destination).2.2,
    (∃ initialSeq, event = .started flow initialSeq) ∨
      event.Tells flow .source (source.flatMap (·.frames)) ∨
      event.Tells flow .destination (destination.flatMap (·.frames)) := by
  intro event listed
  rcases mem_drainedFrom listed with new | ⟨state, told⟩ | ⟨state, told⟩
  · exact .inl new
  · exact .inr (.inl (sideDrained_tells state event told))
  · exact .inr (.inr (sideDrained_tells state event told))

theorem drainedFrom_flow : ∀ event ∈ (drainedFrom v flow p source destination).2.2, event.flow = flow := by
  intro event listed
  rcases drainedFrom_tells event listed with ⟨_, rfl⟩ | (⟨_, _, rfl⟩ | ⟨_, _, rfl, _⟩) |
    (⟨_, _, rfl⟩ | ⟨_, _, rfl, _⟩)
  all_goals rfl

/-- What draining a flow tells goes on from what was known of it, and the flow then stands where its
reader is. -/
theorem knownAfter?_drainedFrom (v : View) (flow : FlowId) {p : Position} (apt : p.Apt)
    (source destination : List Stored) :
    let drained := drainedFrom v flow p source destination
    knownAfter? flow p.known drained.2.2 = some drained.1.position.known ∧
      drained.1.position.announced = true := by
  have adopted := adoptAll_cases p (readyMarkers (source ++ destination)) v.now
  unfold drainedFrom
  dsimp only at adopted ⊢
  generalize adoptAll p (readyMarkers (source ++ destination)) v.now = after at adopted ⊢
  have begun : knownAfter? flow p.known (announcement flow after) =
      some (some (marksAt after.expected)) := by
    apply knownAfter?_announcement apt
    refine adopted.imp id ?_
    rintro ⟨silent, unread, marker, _, met⟩
    exact ⟨silent, unread, marker, met⟩
  obtain ⟨first, announced⟩ := knownAfter?_sideDrained flow .source v.now source
    ⟨{ after with announced := true }, 0, 0⟩
  generalize sideDrained flow .source v.now source ⟨{ after with announced := true }, 0, 0⟩ = one
    at first announced ⊢
  obtain ⟨second, still⟩ := knownAfter?_sideDrained flow .destination v.now
    destination one.1
  generalize sideDrained flow .destination v.now destination one.1 = two at second still ⊢
  have told := still.trans announced
  refine ⟨?_, told⟩
  rw [Position.known_of_announced told, knownAfter?_append ((knownAfter?_append begun _).trans first)]
  exact second

theorem drainedFrom_filled (filled : ∀ block ∈ source ++ destination, ∀ f ∈ block.frames, 0 < f.data.size)
    {other : FlowId} {side : Side} {start : Seq} {bytes : ByteArray}
    (told : .data other side start bytes ∈ (drainedFrom v flow p source destination).2.2) : 0 < bytes.size := by
  rcases mem_drainedFrom told with ⟨_, new⟩ | ⟨state, first⟩ | ⟨state, second⟩
  · cases new
  · obtain ⟨block, listed, f, inside, reached, found⟩ := mem_sideDrained first
    exact deliverFrame_filled (filled block (List.mem_append_left _ listed) f inside) found
  · obtain ⟨block, listed, f, inside, reached, found⟩ := mem_sideDrained second
    exact deliverFrame_filled (filled block (List.mem_append_right _ listed) f inside) found

theorem drainedFrom_told (apt : p.Apt)
    (filled : ∀ block ∈ source ++ destination, ∀ f ∈ block.frames, 0 < f.data.size) :
    let drained := drainedFrom v flow p source destination
    Chronicle flow p.known drained.2.2 drained.1.position.known ∧
      drained.1.position.announced = true := by
  obtain ⟨known, announced⟩ := knownAfter?_drainedFrom v flow apt source destination
  exact ⟨.of_knownAfter? (fun _ _ _ told => drainedFrom_filled filled told) known, announced⟩

/-- A flow starts first of all, and where it was announced before, only after a ready marker too far from
what was read. -/
theorem drainedFrom_started {front back : List Event} {initialSeq : Seq}
    (parts : (drainedFrom v flow p source destination).2.2 = front ++ .started flow initialSeq :: back) :
    front = [] ∧ (p.announced = true → ∃ marker ∈ source ++ destination, marker.isReadyMarker = true ∧
      Restarts p.expected marker ∧ initialSeq = marker.announcedSeq) := by
  rw [drainedFrom] at parts
  dsimp only at parts
  rw [List.append_assoc] at parts
  obtain ⟨leads, silent, same⟩ := announcement_started (fun event listed initialSeq =>
    (List.mem_append.mp listed).elim (fun early => (sideDrained_tells _ event early).ne_started initialSeq)
      fun late => (sideDrained_tells _ event late).ne_started initialSeq) parts
  refine ⟨leads, fun was => ?_⟩
  rcases adoptAll_cases p (readyMarkers (source ++ destination)) v.now with
    ⟨still, _⟩ | ⟨_, _, marker, listed, far, here⟩
  · rw [still, was] at silent
    cases silent
  · obtain ⟨member, due⟩ := List.mem_filter.mp (List.mem_mergeSort.mp listed)
    exact ⟨marker, member, due, far, same.trans here⟩

end Delivery

end Reassembly
