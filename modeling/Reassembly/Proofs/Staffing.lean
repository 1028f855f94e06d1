import Reassembly.Proofs.Circuits
import Reassembly.Proofs.Polling
import Reassembly.Proofs.Site

/-!
Sites in working order, however often the numbers of the insertions came round. A poll or a round changes
nothing, or it goes as it should; so at any time the region carries a catalog, there is a shard to route
to, and the router knows the owner of each owned flow.
-/

namespace Reassembly

open Store Reading Delivery

namespace Site

def shift (s : Site) (a : Attachment) : Shift := ⟨s.team, a, ⟨a.handle, s.commons.bytes⟩, s.events⟩

def rounded (s : Site) (bytes : SparseBytes) (place : Nat) (shard : Shard) (news : List Event) : Site :=
  ⟨⟨bytes, s.commons.handles⟩, { s.team with shards := s.team.shards.setIfInBounds place shard },
    s.events ++ news.toArray⟩

def polled (s : Site) (index : Nat) (now : Micros) (markers : List Stored) (bytes : SparseBytes) (a : Attachment) :
    Site :=
  ⟨⟨bytes, s.commons.handles.set index a⟩, s.team.polled now markers, s.events⟩

variable {l : Layout} {s : Site} {cat : Catalog}

theorem run_concat (start : Site) (deeds : List Deed) (deed : Deed) :
    start.run (deeds ++ [deed]) = (start.run deeds).step deed := List.foldl_concat ..

theorem poll_cases (carrying : s.commons.Carrying l cat) (index : Nat) (now : Micros) :
    s.step (.poll index now) = s ∨ ∃ a markers bytes a', s.commons.handles[index]? = some a ∧
      s.step (.poll index now) = s.polled index now markers bytes a' ∧
      Commons.Carrying l ⟨bytes, s.commons.handles.set index a'⟩ (cat.swept a.config.blockIdleTimeout now) := by
  cases attached : s.commons.handles[index]? with
  | none => exact .inl (by simp only [step, onShift, attached])
  | some a =>
    have member := List.mem_of_getElem? attached
    have tidy := carrying.tidy a member
    simp only [step, onShift, attached]
    by_cases early : s.team.tooSoon now = true
    · rw [Shift.poll_tooSoon early]
      simp only [after, set_of_getElem? attached]
      exact .inl trivial
    · obtain ⟨stats, markers, rotation, r', ran, carries'⟩ := @Shift.poll_found s.team a _ s.events cat
        (carrying.seen member) now (Bool.eq_false_iff.mpr early)
      have kept : Commons.Tidy l { a with
          writers := Sweep.keepFresh a.writers now a.config.writerFlowTimeout, rotation } :=
        ⟨tidy.layout, tidy.long, tidy.aimed.keepFresh now _⟩
      rw [ran]
      exact .inr ⟨a, markers, r'.bytes, _, rfl, rfl,
        carrying.replace (a := a) carries' (carrying.sound.swept _ now) tidy.layout kept index⟩

theorem drain_cases (carrying : s.commons.Carrying l cat)
    (checked : ∀ index flow, (s.team.position? index flow).isSome → flow.raw.toNat < 0x80000000)
    (index place : Nat) (now : Micros) :
    s.step (.drain index place now) = s ∨ ∃ a shard shard' news cat' bytes,
      s.commons.handles[index]? = some a ∧ s.team.shards[place]? = some shard ∧
      Shard.Rounds (a.view now) shard cat cat' shard' news ∧
      s.step (.drain index place now) = rounded s bytes place shard' news ∧
      Commons.Carrying l ⟨bytes, s.commons.handles⟩ cat' := by
  cases attached : s.commons.handles[index]? with
  | none => exact .inl (by simp only [step, onShift, attached])
  | some a =>
    have member := List.mem_of_getElem? attached
    have tidy := carrying.tidy a member
    simp only [step, onShift, attached]
    cases manned : s.team.shards[place]? with
    | none =>
      rw [Shift.round_none now manned]
      simp only [after, set_of_getElem? attached]
      exact .inl trivial
    | some shard =>
      obtain ⟨stats, shard', news, cat', r', rounds, ran, carries'⟩ := @Shift.round_found
        _ cat s.events s.team a (carrying.seen member) now place shard manned
        (Team.shard_checked checked manned)
      have sound : cat'.Sound := by
        obtain ⟨refs, rfl⟩ := rounds.exists_without
        exact carrying.sound.without refs
      have carrying' := carrying.replace (a := a) carries' sound tidy.layout tidy index
      rw [ran]
      simp only [after, set_of_getElem? attached] at carrying' ⊢
      exact .inr ⟨a, shard, shard', news, cat', r'.bytes, rfl, rfl, rounds, rfl, carrying'⟩

theorem owned_before {place : Nat} {shard shard' : Shard} {v : View} {cat' : Catalog} {news : List Event}
    (manned : s.team.shards[place]? = some shard) (rounds : Shard.Rounds v shard cat cat' shard' news)
    (bytes : SparseBytes) {other : Nat} {flow : FlowId}
    (owned : ((rounded s bytes place shard' news).team.position? other flow).isSome) :
    (s.team.position? other flow).isSome := by
  rw [rounded, Team.position?_set manned shard' other flow] at owned
  split at owned
  · next here =>
    rw [← here, Team.position?_manned manned]
    refine Option.isSome_iff_ne_none.mpr fun none => ?_
    rw [(rounds.unowned none).1] at owned
    cases owned
  · exact owned

/-- A site in working order: its region carries a catalog, there are shards, and the router knows the owner
of each owned flow. -/
structure Staffed (l : Layout) (s : Site) (cat : Catalog) : Prop where
  commons : s.commons.Carrying l cat
  manned : 0 < s.team.shards.size
  assigned : s.team.Assigned
  checked : ∀ index flow, (s.team.position? index flow).isSome → flow.raw.toNat < 0x80000000

theorem Staffed.step (staffed : Staffed l s cat) (deed : Deed) : ∃ cat', Staffed l (s.step deed) cat' := by
  rcases deed with move | ⟨index, now⟩ | ⟨index, place, now⟩
  · obtain ⟨cat', carrying⟩ := staffed.commons.step move
    exact ⟨cat', carrying, staffed.manned, staffed.assigned, staffed.checked⟩
  · rcases poll_cases staffed.commons index now with still | ⟨a, markers, bytes, a', _, stepped, carrying⟩
    · exact ⟨cat, by rw [still]; exact staffed⟩
    · refine ⟨cat.swept a.config.blockIdleTimeout now, ?_⟩
      rw [stepped]
      refine ⟨carrying, ?_, staffed.assigned.polled now markers, fun other flow owned => ?_⟩
      · rw [polled, Team.size_polled]
        exact staffed.manned
      · rcases s.team.polled_position now markers other flow with same | ⟨_, marker, _, rfl, _⟩
        · exact staffed.checked other flow (same ▸ owned)
        · exact marker.key.flow_checked
  · rcases drain_cases staffed.commons staffed.checked index place now with
      still | ⟨a, shard, shard', news, cat', bytes, _, manned, rounds, stepped, carrying⟩
    · exact ⟨cat, by rw [still]; exact staffed⟩
    · refine ⟨cat', ?_⟩
      rw [stepped]
      refine ⟨carrying, ?_, fun other flow owned => ?_, fun other flow owned => ?_⟩
      · rw [rounded, Array.size_setIfInBounds]
        exact staffed.manned
      · exact staffed.assigned other flow (owned_before manned rounds bytes owned)
      · exact staffed.checked other flow (owned_before manned rounds bytes owned)

theorem Fresh.staffed {config : StoreConfig} {shards : ShardConfig} (fresh : s.Fresh config shards) :
    ∃ l, Staffed l s .empty := by
  obtain ⟨a, _, _, carrying⟩ := fresh.carrying
  obtain ⟨manned, _, unowned, _⟩ := Team.ofConfig_ok fresh.formed
  refine ⟨a.layout, carrying.commons, manned, fun index flow owned => ?_, fun index flow owned => ?_⟩
  · rw [unowned] at owned
    cases owned
  · rw [unowned] at owned
    cases owned

theorem Fresh.staffed_run {config : StoreConfig} {shards : ShardConfig} (fresh : s.Fresh config shards)
    (deeds : List Deed) : ∃ l cat, Staffed l (s.run deeds) cat := by
  induction deeds using List.reverseRecOn with
  | nil =>
    obtain ⟨l, staffed⟩ := fresh.staffed
    exact ⟨l, _, staffed⟩
  | append_singleton before deed ih =>
    obtain ⟨l, cat, staffed⟩ := ih
    rw [run_concat]
    obtain ⟨cat', staffed'⟩ := staffed.step deed
    exact ⟨l, cat', staffed'⟩

end Site

end Reassembly
