/-
  SingleFile.Proofs.Json.Values — VALUES READ BACK
  ────────────────────────────────────────────────
  A value can be spelled by a term.  The term has the value again, if no
  object in it has two members of one key, and if as many containers may be
  nested as are.

  Main results:
    * `Term.value?_ofValue` — a value is read back from the term that spells
      it.
-/
import Mathlib.Data.List.Nodup
import SingleFile.Json.Decode

namespace SingleFile.Json

/-! ## §1. Keys -/

mutual

/-- Whether the keys of each object in a value are all different. -/
def Value.HasDistinctKeys : Value → Prop
  | .array items => HaveDistinctKeys items
  | .object members => (members.map Prod.fst).Nodup ∧ MembersHaveDistinctKeys members
  | _ => True

/-- Whether that holds of the items of an array. -/
def HaveDistinctKeys : List Value → Prop
  | [] => True
  | v :: rest => v.HasDistinctKeys ∧ HaveDistinctKeys rest

/-- Whether that holds of the values of members. -/
def MembersHaveDistinctKeys : List (String × Value) → Prop
  | [] => True
  | (_, v) :: rest => v.HasDistinctKeys ∧ MembersHaveDistinctKeys rest

end

/-- A member with a new key comes behind the others. -/
theorem Value.put_of_not_mem {members : List (String × Value)} {key : String}
    (h : key ∉ members.map Prod.fst) (v : Value) :
    Value.put members key v = members ++ [(key, v)] := by
  have hnone : (members.any fun m => m.1 == key) = false := by
    rw [List.any_eq_false]
    intro m hm heq
    exact h (List.mem_map.mpr ⟨m, hm, beq_iff_eq.mp heq⟩)
  rw [Value.put, hnone]
  rfl

/-- The members of an object are put one behind the other, as their keys are all different. -/
theorem Value.put_of_nodup {found rest : List (String × Value)} {key : String} {v : Value}
    (h : ((found ++ (key, v) :: rest).map Prod.fst).Nodup) :
    Value.put found key v = found ++ [(key, v)] := by
  refine Value.put_of_not_mem (fun hmem => ?_) v
  rw [List.map_append, List.nodup_append] at h
  exact h.2.2 key hmem key (by simp) rfl

/-! ## §2. Values of terms -/

/-- What follows from a bound on the depth of an array or object. -/
theorem exists_levels_of_succ_le {depth levels : Nat} (h : depth + 1 ≤ levels) :
    ∃ inner, levels = inner + 1 ∧ depth ≤ inner :=
  ⟨levels - 1, by omega, by omega⟩

mutual

/-- **A value is read back from its term.** -/
theorem Term.value?_ofValue : ∀ (v : Value), v.HasDistinctKeys → ∀ (levels : Nat),
    (Term.ofValue v).depth ≤ levels → (Term.ofValue v).value? levels = some v
  | .null, _, _, _ => by rw [Term.ofValue, Term.value?]
  | .bool _, _, _, _ => by rw [Term.ofValue, Term.value?]
  | .number _, _, _, _ => by rw [Term.ofValue, Term.value?, Option.map_some]
  | .string _, _, _, _ => by rw [Term.ofValue, Term.value?, Option.map_some]
  | .array items, hkeys, levels, hlevels => by
    rw [Value.HasDistinctKeys] at hkeys
    rw [Term.ofValue, Term.depth] at hlevels
    obtain ⟨inner, rfl, hinner⟩ := exists_levels_of_succ_le hlevels
    rw [Term.ofValue, Term.value?, valuesOf?_ofValues items hkeys inner hinner, Option.map_some]
  | .object members, hkeys, levels, hlevels => by
    rw [Value.HasDistinctKeys] at hkeys
    rw [Term.ofValue, Term.depth] at hlevels
    obtain ⟨inner, rfl, hinner⟩ := exists_levels_of_succ_le hlevels
    rw [Term.ofValue, Term.value?,
      membersOf?_ofMembers members hkeys.2 inner hinner [] hkeys.1, List.nil_append,
      Option.map_some]

/-- The items of an array are read back. -/
theorem valuesOf?_ofValues : ∀ (items : List Value), HaveDistinctKeys items → ∀ (levels : Nat),
    depthOf (ofValues items) ≤ levels → valuesOf? levels (ofValues items) = some items
  | [], _, _, _ => by rw [ofValues, valuesOf?]
  | v :: rest, hkeys, levels, hlevels => by
    rw [HaveDistinctKeys] at hkeys
    rw [ofValues, depthOf] at hlevels
    obtain ⟨hv, hrest⟩ := Nat.max_le.mp hlevels
    rw [ofValues, valuesOf?, Term.value?_ofValue v hkeys.1 levels hv,
      valuesOf?_ofValues rest hkeys.2 levels hrest]
    rfl

/-- The members of an object are read back behind others, if no key is among those of the
others. -/
theorem membersOf?_ofMembers : ∀ (members : List (String × Value)),
    MembersHaveDistinctKeys members → ∀ (levels : Nat),
    depthOfMembers (ofMembers members) ≤ levels → ∀ (found : List (String × Value)),
    ((found ++ members).map Prod.fst).Nodup →
      membersOf? levels (ofMembers members) found = some (found ++ members)
  | [], _, _, _, _, _ => by rw [ofMembers, membersOf?, List.append_nil]
  | (key, v) :: rest, hkeys, levels, hlevels, found, hnodup => by
    rw [MembersHaveDistinctKeys] at hkeys
    rw [ofMembers, depthOfMembers] at hlevels
    obtain ⟨hv, hrest⟩ := Nat.max_le.mp hlevels
    rw [ofMembers, membersOf?, Term.value?_ofValue v hkeys.1 levels hv]
    show membersOf? levels (ofMembers rest) (Value.put found key v) = _
    rw [Value.put_of_nodup hnodup]
    rw [List.append_cons found _ rest] at hnodup ⊢
    exact membersOf?_ofMembers rest hkeys.2 levels hrest _ hnodup

end

end SingleFile.Json
