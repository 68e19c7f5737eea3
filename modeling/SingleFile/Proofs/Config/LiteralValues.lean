/-
  SingleFile.Proofs.Config.LiteralValues — VALUES THAT SCRIPTS SPELL
  ──────────────────────────────────────────────────────────────────
  An expression made of literals spells a value, and that value is read.  As
  soon as something in an expression would have to be evaluated, however deep
  it stands, nothing is read: no part of an object is taken without the rest.

  Main results:
    * `literalValue?_of_spells` — the value that an expression spells is read.
    * `literalValue?_eq_none` — nothing is read of an expression with
      something in it that would have to be evaluated.
-/
import Mathlib.Data.List.Forall2
import SingleFile.Config.Literal
import SingleFile.Proofs.Json.Values

namespace SingleFile.Config

open SingleFile.Json SingleFile.Script SingleFile.Number List

/-! ## §1. Expressions that spell values -/

/-- Whether a node is a key that spells a name, as a word or as a string. -/
def IsKey (key : Node) (name : String) : Prop :=
  key.kind = .fieldName name ∨ key.kind = .string (some name)

/-- Whether a node is a property that spells a member. -/
inductive SpellsProperty (spells : Node → Value → Prop) : Node → String × Value → Prop where
  | mk {span : Text.Span} {key value : Node} {name : String} {v : Value} (hkey : IsKey key name)
    (h : spells value v) : SpellsProperty spells (.mk .keyValue span [key, value]) (name, v)

/-- **Whether an expression spells a value**: with literals for what is no array or object, a minus
in front of numbers below zero, and parentheses anywhere. -/
inductive SpellsLiteral : Node → Value → Prop where
  | null (span : Text.Span) : SpellsLiteral (.mk .null span []) .null
  | bool (b : Bool) (span : Text.Span) : SpellsLiteral (.mk (.boolean b) span []) (.bool b)
  | string (s : String) (span : Text.Span) :
    SpellsLiteral (.mk (.string (some s)) span []) (.string s)
  | number (negative : Bool) (m : Nat) (e : Int) (span : Text.Span) :
    SpellsLiteral (.mk (.number (.finite negative m e)) span [])
      (.number (.real (.finite negative m e)))
  | minus {inner : Node} {negative : Bool} {m : Nat} {e : Int} (span : Text.Span)
    (h : inner.unwrapped.kind = .number (.finite negative m e)) :
    SpellsLiteral (.mk (.unary "-") span [inner]) (.number (.real (.finite (!negative) m e)))
  | array {items : List Node} {values : List Value} (span : Text.Span)
    (h : Forall₂ SpellsLiteral items values) :
    SpellsLiteral (.mk .array span items) (.array values)
  | object {properties : List Node} {members : List (String × Value)} (span : Text.Span)
    (hkeys : (members.map Prod.fst).Nodup)
    (h : Forall₂ (SpellsProperty SpellsLiteral) properties members) :
    SpellsLiteral (.mk .object span properties) (.object members)
  | paren {inner : Node} {v : Value} (span : Text.Span) (h : SpellsLiteral inner v) :
    SpellsLiteral (.mk .paren span [inner]) v

theorem literalKey?_of_isKey {key : Node} {name : String} (h : IsKey key name) :
    literalKey? key.kind = some name := by
  rcases h with h | h <;> rw [h] <;> rfl

theorem SpellsLiteral.kind_ne_hole {n : Node} {v : Value} (h : SpellsLiteral n v) :
    (n.kind == .hole) = false := by
  cases h <;> rfl

/-- What spells an object is an object in parentheses. -/
theorem SpellsLiteral.unwrapped_kind : ∀ {n : Node} {members : List (String × Value)},
    SpellsLiteral n (.object members) → n.unwrapped.kind = .object
  | .mk _ _ _, _, .object _ _ _ => rfl
  | .mk _ _ [inner], _, .paren _ h => by
    rw [Node.unwrapped]
    exact unwrapped_kind h

/-- What a minus in front of a number comes to. -/
theorem negatedValue?_of_kind {n : Node} {negative : Bool} {m : Nat} {e : Int}
    (h : n.unwrapped.kind = .number (.finite negative m e)) :
    negatedValue? n = some (.number (.real (.finite (!negative) m e))) := by
  rw [negatedValue?]
  revert h
  cases n.unwrapped with
  | mk kind span children =>
    rintro rfl
    rfl

mutual

/-- **The value that an expression spells is read.** -/
theorem literalValue?_of_spells : ∀ (n : Node) (v : Value), SpellsLiteral n v →
    literalValue? n = some v
  | _, _, .null _ => by rw [literalValue?]
  | _, _, .bool _ _ => by rw [literalValue?]
  | _, _, .string _ _ => by rw [literalValue?, Option.map_some]
  | _, _, .number _ _ _ _ => by rw [literalValue?, realValue?]
  | .mk _ _ [inner], _, .minus _ h => by
    rw [literalValue?, negatedValue?_of_kind h]
  | .mk _ _ items, .array values, .array _ h => by
    rw [literalValue?, literalItems?_of_spells items values h, Option.map_some]
  | .mk _ _ properties, .object members, .object _ hkeys h => by
    rw [literalValue?, literalMembers?_of_spells properties members h [] hkeys, Option.map_some,
      List.nil_append]
  | .mk _ _ [inner], v, .paren _ h => by
    rw [literalValue?, literalValue?_of_spells inner v h]

theorem literalItems?_of_spells : ∀ (items : List Node) (values : List Value),
    Forall₂ SpellsLiteral items values → literalItems? items = some values
  | [], [], .nil => by rw [literalItems?]
  | n :: items, v :: values, .cons h hrest => by
    rw [literalItems?, h.kind_ne_hole, literalItems?_of_spells items values hrest]
    simp only [Bool.false_eq_true, if_false, literalValue?_of_spells n v h]
    rfl

theorem literalMembers?_of_spells : ∀ (properties : List Node) (members : List (String × Value)),
    Forall₂ (SpellsProperty SpellsLiteral) properties members →
    ∀ (found : List (String × Value)), ((found ++ members).map Prod.fst).Nodup →
      literalMembers? properties found = some (found ++ members)
  | [], [], .nil, found, _ => by rw [literalMembers?, List.append_nil]
  | .mk _ _ [key, value] :: properties, (name, v) :: members, .cons (.mk hkey h) hrest, found,
      hnodup => by
    rw [literalMembers?, literalKey?_of_isKey hkey, literalValue?_of_spells value v h]
    show literalMembers? properties (Value.put found name v) = _
    rw [Value.put_of_nodup hnodup]
    rw [List.append_cons found _ members] at hnodup ⊢
    exact literalMembers?_of_spells properties members hrest _ hnodup

end

/-! ## §2. Expressions that would have to be evaluated -/

/-- Whether a minus stands in front of a number. -/
def isNegation (op : String) (children : List Node) : Bool :=
  match children with
  | [inner] => op == "-" && match inner.unwrapped.kind with
    | .number _ => true
    | _ => false
  | _ => false

/-- **Whether a node would have to be evaluated**, whatever is below it: a name other than
`undefined`, an object with something else in it than keys and values, an operator that is no minus
in front of a number, and all that is neither a literal nor a part of one. -/
def isComputed : Node → Bool
  | .mk kind _ children =>
    match kind with
    | .ident name => name != "undefined"
    | .object => children.any fun c => c.kind != .keyValue
    | .unary op => !isNegation op children
    | .paren | .array | .keyValue | .fieldName _ | .string _ | .number _ | .boolean _ | .null
    | .hole => false
    | _ => true

/-- Whether a kind of literal has parts. -/
def hasParts : Kind → Bool
  | .paren | .array | .object | .keyValue | .unary _ => true
  | _ => false

/-- **Whether an expression has something in it that would have to be evaluated.** -/
inductive HasComputed : Node → Prop where
  | here {n : Node} (h : isComputed n = true) : HasComputed n
  | inside {kind : Kind} {span : Text.Span} {children : List Node} {c : Node}
    (hparts : hasParts kind = true) (hc : c ∈ children) (h : HasComputed c) :
    HasComputed (.mk kind span children)

/-- Whether something is read of a node: its value, the key that it is, the member that it is, or
the number that a minus stands in front of. -/
inductive IsRead : Node → Prop where
  | value {n : Node} {v : Value} (h : literalValue? n = some v) : IsRead n
  | key {n : Node} {name : String} (h : literalKey? n.kind = some name) : IsRead n
  | property {n : Node} {rest : List Node} {found members : List (String × Value)}
    (h : literalMembers? (n :: rest) found = some members) : IsRead n
  | negated {n : Node} {v : Value} (h : negatedValue? n = some v) : IsRead n
  | hole {n : Node} (h : n.kind = .hole) : IsRead n

/-- What the properties are whose members are read. -/
theorem exists_of_literalMembers? {n : Node} {rest : List Node}
    {found members : List (String × Value)}
    (h : literalMembers? (n :: rest) found = some members) :
    ∃ span key value name v, n = .mk .keyValue span [key, value] ∧
      literalKey? key.kind = some name ∧ literalValue? value = some v ∧
      literalMembers? rest (Value.put found name v) = some members := by
  unfold literalMembers? at h
  split at h
  · cases ‹n :: rest = []›
  · next span key value rest' heq =>
    obtain ⟨rfl, rfl⟩ := List.cons.inj heq
    obtain ⟨name, hname, h⟩ := Option.bind_eq_some_iff.mp h
    obtain ⟨v, hv, h⟩ := Option.bind_eq_some_iff.mp h
    exact ⟨span, key, value, name, v, rfl, hname, hv, h⟩
  · cases h

/-- Every property of an object that is read is one with a member. -/
theorem exists_of_mem_properties {properties : List Node} {found members : List (String × Value)}
    (h : literalMembers? properties found = some members) :
    ∀ c ∈ properties, ∃ rest found' members',
      literalMembers? (c :: rest) found' = some members' := by
  induction properties generalizing found with
  | nil => exact fun c hc => absurd hc List.not_mem_nil
  | cons n rest ih =>
    obtain ⟨_, _, _, _, _, -, -, -, hrest⟩ := exists_of_literalMembers? h
    exact List.forall_mem_cons.mpr ⟨⟨rest, found, members, h⟩, ih hrest⟩

theorem isRead_of_literalItems? {items : List Node} {values : List Value}
    (h : literalItems? items = some values) : ∀ c ∈ items, IsRead c := by
  induction items generalizing values with
  | nil => exact fun c hc => absurd hc List.not_mem_nil
  | cons n rest ih =>
    rw [literalItems?] at h
    split at h
    · next hhole =>
      obtain ⟨v, -, h⟩ := Option.bind_eq_some_iff.mp h
      obtain ⟨others, hothers, -⟩ := Option.bind_eq_some_iff.mp h
      exact List.forall_mem_cons.mpr ⟨.hole (beq_iff_eq.mp hhole), ih hothers⟩
    · obtain ⟨v, hv, h⟩ := Option.bind_eq_some_iff.mp h
      obtain ⟨others, hothers, -⟩ := Option.bind_eq_some_iff.mp h
      exact List.forall_mem_cons.mpr ⟨.value hv, ih hothers⟩

/-- A number is read behind a minus. -/
theorem exists_of_negatedValue? {n : Node} {v : Value} (h : negatedValue? n = some v) :
    ∃ x, n.unwrapped.kind = .number x := by
  rw [negatedValue?] at h
  split at h
  · next heq => exact ⟨_, by rw [heq]; rfl⟩
  · cases h

/-- What is inside of parentheses is what they stand for. -/
theorem unwrapped_cases (n : Node) : n.unwrapped = n ∨
    ∃ span inner, n = .mk .paren span [inner] ∧ n.unwrapped = inner.unwrapped := by
  fun_cases Node.unwrapped n with
  | case1 span inner => exact .inr ⟨span, inner, rfl, rfl⟩
  | case2 => exact .inl rfl

/-- **Nothing that is read would have to be evaluated.** -/
theorem IsRead.isComputed_eq_false {n : Node} (h : IsRead n) : isComputed n = false := by
  cases n with
  | mk kind span children =>
  cases h with
  | value h =>
    unfold literalValue? at h
    split at h
    · rfl
    · obtain ⟨members, hmembers, -⟩ := Option.map_eq_some_iff.mp h
      refine List.any_eq_false.mpr fun c hc => ?_
      obtain ⟨_, _, _, hproperty⟩ := exists_of_mem_properties hmembers c hc
      obtain ⟨_, _, _, _, _, rfl, -⟩ := exists_of_literalMembers? hproperty
      exact Bool.false_ne_true
    · rfl
    · rfl
    · rfl
    · rfl
    · rfl
    · next inner =>
      obtain ⟨x, hx⟩ := exists_of_negatedValue? h
      simp [isComputed, isNegation, hx]
    · rfl
    · cases h
  | key h =>
    change literalKey? kind = some _ at h
    unfold literalKey? at h
    split at h
    · rfl
    · rfl
    · rfl
    · cases h
  | property h =>
    obtain ⟨_, _, _, _, _, heq, -⟩ := exists_of_literalMembers? h
    obtain ⟨rfl, -, -⟩ := Node.mk.inj heq
    rfl
  | negated h =>
    obtain ⟨x, hx⟩ := exists_of_negatedValue? h
    rcases unwrapped_cases (.mk kind span children) with heq | ⟨_, inner, heq, -⟩
    · rw [heq] at hx
      obtain rfl : kind = .number x := hx
      rfl
    · obtain ⟨rfl, -, -⟩ := Node.mk.inj heq
      rfl
  | hole h =>
    obtain rfl : kind = .hole := h
    rfl

/-- **What is read has only parts that are read.** -/
theorem IsRead.of_mem {kind : Kind} {span : Text.Span} {children : List Node}
    (h : IsRead (.mk kind span children)) (hparts : hasParts kind = true) :
    ∀ c ∈ children, IsRead c := by
  cases h with
  | value h =>
    unfold literalValue? at h
    split at h
    · next inner => exact List.forall_mem_singleton.mpr (.value h)
    · obtain ⟨members, hmembers, -⟩ := Option.map_eq_some_iff.mp h
      intro c hc
      obtain ⟨_, _, _, hproperty⟩ := exists_of_mem_properties hmembers c hc
      exact .property hproperty
    · obtain ⟨values, hvalues, -⟩ := Option.map_eq_some_iff.mp h
      exact isRead_of_literalItems? hvalues
    · cases hparts
    · cases hparts
    · cases hparts
    · cases hparts
    · next inner => exact List.forall_mem_singleton.mpr (.negated h)
    · cases hparts
    · cases h
  | key h =>
    change literalKey? kind = some _ at h
    unfold literalKey? at h
    split at h
    · cases hparts
    · cases hparts
    · cases hparts
    · cases h
  | property h =>
    obtain ⟨_, key, value, _, _, heq, hkey, hvalue, -⟩ := exists_of_literalMembers? h
    obtain ⟨-, -, rfl⟩ := Node.mk.inj heq
    exact List.forall_mem_cons.mpr ⟨.key hkey, List.forall_mem_singleton.mpr (.value hvalue)⟩
  | @negated v h =>
    obtain ⟨x, hx⟩ := exists_of_negatedValue? h
    rcases unwrapped_cases (.mk kind span children) with heq | ⟨_, inner, heq, hinner⟩
    · rw [heq] at hx
      obtain rfl : kind = .number x := hx
      cases hparts
    · obtain ⟨-, -, rfl⟩ := Node.mk.inj heq
      have hread : negatedValue? inner = some v := by
        rw [negatedValue?, hinner] at h
        exact h
      exact List.forall_mem_singleton.mpr (.negated hread)
  | hole h =>
    obtain rfl : kind = .hole := h
    cases hparts

theorem HasComputed.not_isRead {n : Node} (h : HasComputed n) : ¬IsRead n := by
  induction h with
  | here h => exact fun hread => Bool.noConfusion (h.symm.trans hread.isComputed_eq_false)
  | inside hparts hc _ ih => exact fun hread => ih (hread.of_mem hparts _ hc)

/-- **Nothing is read of an expression** with something in it that would have to be evaluated. -/
theorem literalValue?_eq_none {n : Node} (h : HasComputed n) : literalValue? n = none :=
  Option.eq_none_iff_forall_ne_some.mpr fun _ hv => h.not_isRead (.value hv)

end SingleFile.Config
