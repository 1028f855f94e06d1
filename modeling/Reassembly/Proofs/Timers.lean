import Reassembly.Proofs.Shelter

/-!
The two timers. A writer forgets a flow when it has not written it for some time, a shard when it has
consumed nothing of it for a longer time. As long as every put of an owned flow finds or stores bytes of
it, the writer forgets the flow before the shard does: what a writer takes for known is owned since its
last write, or has bytes to be drained, or is announced.
-/

namespace Reassembly

open Store Reading Delivery Writing

namespace Delivery

/-- What a writer takes for known, if it was last written at `written`: not really, or owned and
consumed since or to be consumed, or announced. -/
inductive Backed (timeout : Micros) (t : Team) (items : List Item) (flow : FlowId)
    (written now : Micros) : Prop
  | stale (late : timeout < elapsed now written)
  | owned {index : Nat} {position : Position} (stands : t.position? index flow = some position)
      (fresh : written ≤ position.lastUpdate ∨ Stocked items flow)
  | marked (unowned : ¬ t.Owns flow) (marked : Marked items flow)

variable {timeout written now : Micros} {t t' : Team} {items items' : List Item} {flow : FlowId}

theorem Backed.later (backed : Backed timeout t items flow written now) {next : Micros} (le : now ≤ next) :
    Backed timeout t items flow written next := by
  cases backed with
  | stale late => exact .stale (UInt64.lt_of_lt_of_le late (elapsed_mono le))
  | owned stands fresh => exact .owned stands fresh
  | marked unowned marked => exact .marked unowned marked

theorem Backed.grow (backed : Backed timeout t items flow written now)
    (stocked : Stocked items flow → Stocked items' flow)
    (marked : Marked items flow → Marked items' flow) :
    Backed timeout t items' flow written now := by
  cases backed with
  | stale late => exact .stale late
  | owned stands fresh => exact .owned stands (fresh.imp id stocked)
  | marked unowned known => exact .marked unowned (marked known)

theorem Backed.polled (backed : Backed timeout t items flow written now) (past : written ≤ now)
    (markers : List Stored) : Backed timeout (t.polled now markers) items flow written now := by
  cases backed with
  | stale late => exact .stale late
  | owned stands fresh => exact .owned (Team.polled_kept stands now markers) fresh
  | marked unowned known =>
    by_cases taken : (t.polled now markers).Owns flow
    · obtain ⟨index, position, stands⟩ := Team.owns_iff.mp taken
      rcases t.polled_position now markers index flow with same | ⟨_, marker, _, _, fresh⟩
      · exact absurd (Team.owns_iff.mpr ⟨index, position, same.symm.trans stands⟩) unowned
      · exact .owned fresh (.inl past)
    · exact .marked taken known

section Round

variable {l : Layout} {v : View} {cat : Catalog} (separate : cat.Distinct) (ordered : cat.Ordered l)
  {s : Shard} {place : Nat} (manned : t.shards[place]? = some s)
  (checked : ∀ index flow, (t.position? index flow).isSome → flow.raw.toNat < 0x80000000)
include separate ordered manned checked

theorem Backed.of_gone (past : written ≤ v.now) {item : Item} (member : item ∈ cat.items)
    (stream : item.isPayload = true) (gone : item ∉ (s.rounded v cat).2.1.items) :
    Backed timeout { t with shards := t.shards.setIfInBounds place (s.rounded v cat).1 }
      (s.rounded v cat).2.1.items item.key.flow written v.now := by
  rw [Shard.mem_rounded (Team.shard_checked checked manned) separate ordered, not_and, not_forall] at gone
  obtain ⟨position, gone⟩ := gone member
  rw [Classical.not_imp, not_not] at gone
  obtain ⟨stands, gone⟩ := gone
  have after := Team.position?_rounded (v := v) separate ordered manned checked place item.key.flow
  rw [if_pos rfl, Team.position?_manned manned, stands, Option.bind_some] at after
  cases fate : (fated v s.flowTimeout cat (item.key.flow, position)).position with
  | none =>
    have empty := (fateOf_none separate item.key.flow_checked fate).1 item member rfl
    rw [stream] at empty
    cases empty
  | some next =>
    refine .owned (after.trans fate) (.inl ?_)
    rcases fateOf_some separate fate with late | ⟨_, none_gone⟩
    · rw [late]
      exact past
    · exact absurd gone (none_gone item member stream)

theorem Backed.drained (shorter : timeout < s.flowTimeout) (past : written ≤ v.now)
    (backed : Backed timeout t cat.items flow written v.now) :
    Backed timeout { t with shards := t.shards.setIfInBounds place (s.rounded v cat).1 }
      (s.rounded v cat).2.1.items flow written v.now := by
  have positions := Team.position?_rounded (v := v) separate ordered manned checked
  have consumed := fun item (member : item ∈ cat.items) =>
    @Backed.of_gone timeout written t l v cat separate ordered s place manned checked past item member
  cases backed with
  | stale late => exact .stale late
  | marked unowned marked =>
    obtain ⟨marker, member, kind, rfl⟩ := marked
    have missing : ∀ index, t.position? index marker.key.flow = none := by
      intro index
      cases stands : t.position? index marker.key.flow with
      | none => rfl
      | some position => exact absurd (Team.owns_iff.mpr ⟨index, position, stands⟩) unowned
    refine .marked (fun owned => ?_) ⟨marker, (Shard.mem_rounded (Team.shard_checked checked manned)
      separate ordered).mpr ⟨member, fun position stands => ?_⟩, kind, rfl⟩
    · obtain ⟨index, position, stands⟩ := Team.owns_iff.mp owned
      rw [positions, missing, Option.bind_none, ite_self] at stands
      cases stands
    · rw [← Team.position?_manned manned, missing] at stands
      cases stands
  | @owned index position stands fresh =>
    by_cases elsewhere : place = index
    · subst elsewhere
      have after := positions place flow
      rw [if_pos rfl, stands, Option.bind_some] at after
      have low := checked place flow (by rw [stands]; rfl)
      cases fate : (fated v s.flowTimeout cat (flow, position)).position with
      | none =>
        obtain ⟨empty, late⟩ := fateOf_none separate low fate
        have since : written ≤ position.lastUpdate := by
          refine fresh.resolve_right ?_
          rintro ⟨item, member, stream, here⟩
          rw [empty item member here] at stream
          cases stream
        exact .stale (UInt64.lt_of_lt_of_le (UInt64.lt_trans shorter late) (elapsed_anti since))
      | some next =>
        rcases fateOf_some separate fate with late | ⟨same, _⟩
        · exact .owned (after.trans fate) (.inl (by rw [late]; exact past))
        · rcases fresh with since | ⟨item, member, stream, here⟩
          · exact .owned (after.trans fate) (.inl (by rw [same]; exact since))
          · by_cases stays : item ∈ (s.rounded v cat).2.1.items
            · exact .owned (after.trans fate) (.inr ⟨item, stays, stream, here⟩)
            · exact here ▸ consumed item member stream stays
    · have after := positions index flow
      rw [if_neg elsewhere] at after
      rcases fresh with since | ⟨item, member, stream, here⟩
      · exact .owned (after.trans stands) (.inl since)
      · by_cases stays : item ∈ (s.rounded v cat).2.1.items
        · exact .owned (after.trans stands) (.inr ⟨item, stays, stream, here⟩)
        · exact here ▸ consumed item member stream stays

end Round

end Delivery

end Reassembly
