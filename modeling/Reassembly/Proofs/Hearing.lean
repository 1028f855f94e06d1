import Reassembly.Delivery.Event
import Reassembly.Proofs.Positions

/-!
What a reader makes of the news. The transcript has for each side the bytes of its data events, in their
order; as long as the news is plain it has neither gaps nor expired flows.
-/

namespace Reassembly.Delivery

namespace Event

def bytesFor (flow : FlowId) (side : Side) : Event → ByteArray
  | .data other part _ bytes => if other = flow ∧ part = side then bytes else .empty
  | _ => .empty

def isPlain : Event → Bool
  | .started _ _ | .data _ _ _ _ => true
  | .gap _ _ _ _ | .expired _ => false

end Event

def heard (flow : FlowId) (side : Side) : List Event → ByteArray
  | [] => .empty
  | event :: rest => event.bytesFor flow side ++ heard flow side rest

variable {flow : FlowId} {side : Side}

@[simp] theorem heard_nil : heard flow side [] = .empty := rfl

theorem heard_append (first second : List Event) :
    heard flow side (first ++ second) = heard flow side first ++ heard flow side second := by
  induction first with
  | nil => exact ByteArray.empty_append.symm
  | cons event rest ih => rw [List.cons_append, heard, heard, ih, ByteArray.append_assoc]

theorem heard_eq_empty {events : List Event}
    (silent : ∀ event ∈ events, event.bytesFor flow side = .empty) :
    heard flow side events = .empty := by
  induction events with
  | nil => rfl
  | cons event rest ih =>
    rw [heard, silent event List.mem_cons_self, ByteArray.empty_append]
    exact ih fun other later => silent other (List.mem_cons_of_mem _ later)

theorem Event.bytesFor_of_ne {event : Event} (other : event.flow ≠ flow) :
    event.bytesFor flow side = .empty := by
  cases event with
  | data owner part start bytes => exact if_neg fun same => other same.1
  | _ => rfl

theorem heard_of_ne {events : List Event} (others : ∀ event ∈ events, event.flow ≠ flow) :
    heard flow side events = .empty :=
  heard_eq_empty fun event listed => Event.bytesFor_of_ne (others event listed)

theorem heard_flatMap {β : Type} {sources : List (FlowId × β)} {news : FlowId × β → List Event}
    (own : ∀ source ∈ sources, ∀ event ∈ news source, event.flow = source.1)
    (distinct : sources.Pairwise fun a b => a.1 ≠ b.1) {source : FlowId × β} (listed : source ∈ sources) :
    heard source.1 side (sources.flatMap news) = heard source.1 side (news source) := by
  induction sources with
  | nil => exact absurd listed List.not_mem_nil
  | cons first rest ih =>
    obtain ⟨apart, others⟩ := List.pairwise_cons.mp distinct
    rw [List.flatMap_cons, heard_append]
    rcases List.mem_cons.mp listed with rfl | later
    · have silent : heard source.1 side (rest.flatMap news) = .empty := by
        refine heard_of_ne fun event told same => ?_
        obtain ⟨other, there, here⟩ := List.mem_flatMap.mp told
        have theirs := own other (List.mem_cons_of_mem _ there) event here
        exact apart other there (same.symm.trans theirs)
      rw [silent, ByteArray.append_empty]
    · have silent : heard source.1 side (news first) = .empty := by
        refine heard_of_ne fun event told same => apart source later ?_
        exact (own first List.mem_cons_self event told).symm.trans same
      rw [silent, ByteArray.empty_append]
      exact ih (fun other there => own other (List.mem_cons_of_mem _ there)) others later

namespace Transcript

theorem stream_add (t : Transcript) (event : Event) :
    (t.add event).stream flow side = t.stream flow side ++ event.bytesFor flow side := by
  cases event with
  | data owner part start bytes =>
    rw [add, stream, stream, Event.bytesFor]
    dsimp only
    rw [Std.ExtTreeMap.getD_insert]
    by_cases same : owner = flow
    · subst same
      simp only [Std.LawfulEqCmp.compare_eq_iff_eq, if_true, true_and]
      by_cases here : part = side
      · subst here
        rw [if_pos rfl, PerSide.get_set_self]
      · rw [if_neg here, PerSide.get_set_of_ne _ _ (Ne.symm here), ByteArray.append_empty]
    · simp only [Std.LawfulEqCmp.compare_eq_iff_eq, same, false_and, if_false]
      exact ByteArray.append_empty.symm
  | _ => exact ByteArray.append_empty.symm

theorem ofEvents_eq (events : Array Event) : ofEvents events = events.toList.foldl add {} := by
  rw [ofEvents, Array.foldl_toList]

theorem stream_foldl (t : Transcript) (events : List Event) :
    (events.foldl add t).stream flow side = t.stream flow side ++ heard flow side events := by
  induction events generalizing t with
  | nil => exact ByteArray.append_empty.symm
  | cons event rest ih => rw [List.foldl_cons, ih, stream_add, heard, ByteArray.append_assoc]

theorem stream_ofEvents (events : Array Event) :
    (ofEvents events).stream flow side = heard flow side events.toList := by
  have fresh : ({} : Transcript).stream flow side = .empty := by
    rw [stream, Std.ExtTreeMap.getD_empty, PerSide.get_both]
  rw [ofEvents_eq, stream_foldl, fresh, ByteArray.empty_append]

theorem plain_foldl (t : Transcript) {events : List Event} (plain : ∀ event ∈ events, event.isPlain = true) :
    (events.foldl add t).gaps = t.gaps ∧ (events.foldl add t).expired = t.expired := by
  induction events generalizing t with
  | nil => exact ⟨rfl, rfl⟩
  | cons event rest ih =>
    have later := ih (t.add event) fun other listed => plain other (List.mem_cons_of_mem _ listed)
    have first : (t.add event).gaps = t.gaps ∧ (t.add event).expired = t.expired := by
      have this := plain event List.mem_cons_self
      cases event with
      | started flow initialSeq => exact ⟨rfl, rfl⟩
      | data flow side start bytes => exact ⟨rfl, rfl⟩
      | gap flow side expected resumedAt => cases this
      | expired flow => cases this
    exact ⟨later.1.trans first.1, later.2.trans first.2⟩

theorem plain_ofEvents {events : Array Event} (plain : ∀ event ∈ events.toList, event.isPlain = true) :
    (ofEvents events).gaps = [] ∧ (ofEvents events).expired = [] := by
  rw [ofEvents_eq]
  exact plain_foldl {} plain

end Transcript

end Reassembly.Delivery
