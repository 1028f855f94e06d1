import Mathlib.Data.List.Nodup
import Reassembly.Config.Document
import Reassembly.Proofs.Printing

/-!
Documents that the library writes are read back: a flow number whatever its word, and a configuration if it
is one that passes its checks. What is read of a document is a configuration of that kind, so it has a
document of its own that says the same, whatever was left out of the first one.
-/

namespace Reassembly

open Json (Value)

namespace Json.Value

theorem fields?_record {members : List (String × Value)} {names : List String}
    (named : members.map Prod.fst = names) (nodup : names.Nodup) :
    (record members).fields? names = some (members.map fun member => some member.2) := by
  subst named
  have whole : ((members.map (Prod.map some id)).mapM fun member => member.1.map (·, member.2)) =
      some members := by
    rw [List.mapM_map]
    exact List.mapM_pure.trans (congrArg some (List.map_id _))
  have once : (members.map Prod.fst).all (fun name => members.countP (·.1 == name) ≤ 1) = true := by
    refine List.all_eq_true.mpr fun name _ => decide_eq_true ?_
    have count := List.nodup_iff_count_le_one.mp nodup name
    rwa [List.count_eq_countP, List.countP_map] at count
  -- A lookup stops at the first member of a name, and with no name twice that is the member itself.
  have found : ∀ member ∈ members, members.lookup member.1 = some member.2 := by
    intro member listed
    obtain ⟨before, behind, rfl⟩ := List.append_of_mem listed
    refine List.lookup_eq_some_iff.mpr ⟨before, behind, rfl, fun other early => bne_iff_ne.mpr fun same => ?_⟩
    rw [List.map_append] at nodup
    exact List.disjoint_of_nodup_append nodup (List.mem_map_of_mem early)
      (same ▸ List.mem_map_of_mem List.mem_cons_self)
  rw [record_eq, fields?, Option.bind_eq_bind]
  refine Option.bind_eq_some_iff.mpr ⟨members, whole, ?_⟩
  rw [if_pos once, List.map_map]
  exact congrArg some (List.map_congr_left found)

end Json.Value

theorem word32Field_toNat (default word : UInt32) :
    word32Field default (some (.natural word.toNat)) = some word := by
  rw [word32Field, Value.natural, Value.natural?, if_pos word.toNat_lt, Option.map_some, UInt32.ofNat_toNat]

theorem word64Field_toNat (default word : UInt64) :
    word64Field default (some (.natural word.toNat)) = some word := by
  rw [word64Field, Value.natural, Value.natural?, if_pos word.toNat_lt, Option.map_some, UInt64.ofNat_toNat]

theorem StoreConfig.ofValue?_toValue (c : StoreConfig) : ofValue? c.toValue = some c := by
  have fields : c.toValue.fields?
      ["block_capacity", "max_blocks", "block_idle_timeout_us", "writer_flow_timeout_us"] = some _ :=
    Value.fields?_record rfl (by decide)
  rw [ofValue?, fields, Option.bind_eq_bind, Option.bind_some]
  simp only [List.map_cons, List.map_nil, word32Field_toNat, word64Field_toNat]
  rfl

theorem StoreConfig.plain_toValue (c : StoreConfig) : c.toValue.Plain := by
  refine .record fun member listed => ?_
  simp only [List.mem_cons, List.not_mem_nil, or_false] at listed
  obtain rfl | rfl | rfl | rfl := listed <;> exact .natural _

theorem ShardConfig.ofValue?_toValue (c : ShardConfig) : ofValue? c.toValue = some c := by
  have fields : c.toValue.fields?
      ["handler_count", "flow_timeout_us", "assignment_sweep_interval_us", "idle_check_interval_us"] = some _ :=
    Value.fields?_record rfl (by decide)
  rw [ofValue?, fields, Option.bind_eq_bind, Option.bind_some]
  simp only [List.map_cons, List.map_nil, word64Field_toNat]
  rfl

theorem ShardConfig.plain_toValue (c : ShardConfig) : c.toValue.Plain := by
  refine .record fun member listed => ?_
  simp only [List.mem_cons, List.not_mem_nil, or_false] at listed
  obtain rfl | rfl | rfl | rfl := listed <;> exact .natural _

namespace Config

theorem ofValue?_toValue (c : Config) : ofValue? c.toValue = some c := by
  have fields : c.toValue.fields? ["region_path", "store", "shards"] = some _ :=
    Value.fields?_record rfl (by decide)
  have path : pathField (some ((c.regionPath.map Value.string).getD .null)) = some c.regionPath := by
    cases c.regionPath <;> rfl
  rw [ofValue?, fields, Option.bind_eq_bind, Option.bind_some]
  simp only [List.map_cons, List.map_nil, path, recordField, StoreConfig.ofValue?_toValue,
    ShardConfig.ofValue?_toValue]
  rfl

theorem plain_toValue (c : Config) : c.toValue.Plain := by
  refine .record fun member listed => ?_
  simp only [List.mem_cons, List.not_mem_nil, or_false] at listed
  obtain rfl | rfl | rfl := listed
  · cases c.regionPath with
    | none => exact .null
    | some path => exact .string path
  · exact c.store.plain_toValue
  · exact c.shards.plain_toValue

theorem ofText_toText (c : Config) : ofText c.toText = c.validate.map fun () => c := by
  have read : (Value.ofText c.toText).bind ofValue? = some c := by
    rw [toText, Value.pretty, c.plain_toValue.ofText_render, Option.bind_some, ofValue?_toValue]
  rw [ofText, read]
  show (do c.validate; return c) = _
  cases c.validate <;> rfl

theorem valid_of_ofText {text : String} {c : Config} (read : ofText text = .ok c) :
    c.validate = .ok () := by
  rw [ofText] at read
  split at read
  · cases read
  · next config _ =>
    cases checked : config.validate with
    | error fault =>
      rw [checked] at read
      cases read
    | ok =>
      rw [checked] at read
      cases read
      exact checked

/-- A configuration is read back from its document if and only if it passes its checks; and whatever is read
of any document passes them, so that it is read back from a document of its own. -/
theorem survives_its_document (c : Config) :
    (ofText c.toText = .ok c ↔ c.validate = .ok ()) ∧
      ∀ text, ofText text = .ok c → c.validate = .ok () ∧ ofText c.toText = .ok c := by
  have valid_iff : ofText c.toText = .ok c ↔ c.validate = .ok () := by
    rw [ofText_toText]
    cases c.validate with
    | error fault => exact ⟨nofun, nofun⟩
    | ok => exact ⟨fun _ => rfl, fun _ => rfl⟩
  exact ⟨valid_iff, fun text read => ⟨valid_of_ofText read, valid_iff.mpr (valid_of_ofText read)⟩⟩

/-- A path with a quote, a backslash, control characters and a surrogate pair, in a document that leaves fields
out and has its shards in a list. -/
theorem survives_its_document_escaped :
    ∃ (text : String) (c : Config), c.regionPath = some "/\"\\\n\x01😀" ∧
      c.shards.flowTimeout = 18446744073709551615 ∧ ofText text = .ok c ∧
      (ofText c.toText = .ok c ↔ c.validate = .ok ()) ∧ c.validate = .ok () ∧ ofText c.toText = .ok c := by
  let text := "\x7b\"region_path\": \"\\/\\\"\\\\\\n\\u0001\\ud83d\\ude00\", " ++
    "\"store\": \x7b\"max_blocks\": 7\x7d, \"shards\": [2, 18446744073709551615]\x7d"
  let c : Config := {
    regionPath := some "/\"\\\n\x01😀"
    store := { maxBlocks := 7 }
    shards := { handlerCount := 2, flowTimeout := 18446744073709551615 } }
  have read : ofText text = .ok c := by decide +kernel
  have survives := survives_its_document c
  exact ⟨text, c, rfl, rfl, read, survives.1, survives.2 text read⟩

end Config

theorem FlowId.ofText_toValue (flow : FlowId) :
    (Value.ofText flow.toValue.compact).bind FlowId.ofValue? = some flow := by
  have word : (⟨UInt32.ofNat flow.raw.toNat⟩ : FlowId) = flow := by rw [UInt32.ofNat_toNat]
  rw [toValue, Value.compact, (Value.Plain.natural _).ofText_render, Option.bind_some, ofValue?, Value.natural,
    Value.natural?, if_pos flow.raw.toNat_lt, Option.map_some, word]

end Reassembly
