/-
  SingleFile.Proofs.Script.EnumLowering — LOWERED ENUMS KEEP THEIR MEANING
  ────────────────────────────────────────────────────────────────────────
  The statements for the members are written one by one, and what the next
  one counts on from goes along: a number that is known, or the key of the
  member in front.  Behind each statement the object is the one that the
  members so far denote.  This takes initializers that mean the same where
  they are copied to, numbers that their texts spell, and a string only where
  it stands by itself.  A reference to another member is copied as it stands,
  and there it stands for nothing.

  Main results:
    * `memberText_fills` — what the statement for a member does.  The step.
    * `membersText_fills` — what all of them do.  The run.
    * `replaceEnum_keepsMeaning` — what an enum is replaced by.
-/
import SingleFile.Proofs.Script.EnumMeaning
import SingleFile.Proofs.Script.Evaluation

namespace SingleFile.Script

open SingleFile.Text SingleFile.Number Binary64

variable {ops : Operators} {source : List Char} {name : String}

/-! ## §1. Objects that grow -/

theorem lookup_concat {members : Members} {member key : String} {value : Primitive} :
    (members ++ [(member, value)]).lookup key
      = (members.lookup key).or (if key = member then some value else none) := by
  rw [List.lookup_append, List.lookup_cons, List.lookup_nil]
  congr 1
  by_cases h : key = member
  · rw [if_pos h, beq_iff_eq.mpr h]
  · rw [if_neg h, beq_eq_false_iff_ne.mpr h]

theorem lookup_eq_none {members : Members} {key : String}
    (h : ∀ member ∈ members, member.1 ≠ key) : members.lookup key = none := by
  rw [List.lookup_eq_none_iff]
  intro member hmember
  simpa using (h member hmember).symm

/-- The names of the first members are those of an enum. -/
theorem WellNamed.left {members more : Members} (h : WellNamed ops (members ++ more)) :
    WellNamed ops members where
  distinct := by
    have hdistinct := h.distinct
    rw [List.map_append] at hdistinct
    exact hdistinct.of_append_left
  apart m hm o ho := h.apart m (List.mem_append_left _ hm) o (List.mem_append_left _ ho)
  ordinary m hm := h.ordinary m (List.mem_append_left _ hm)

/-- What the name of one more member is like. -/
theorem WellNamed.concat {members : Members} {member : String} {value : Primitive}
    (h : WellNamed ops (members ++ [(member, value)])) :
    (∀ other ∈ members, other.1 ≠ member) ∧ member ≠ "__proto__" ∧
      ∀ other ∈ members ++ [(member, value)], hasKey ops other.1 (member, value) = false := by
  have hdistinct := h.distinct
  rw [List.map_append, List.nodup_append] at hdistinct
  refine ⟨fun o ho => ?_, ?_, fun o ho => ?_⟩
  · exact hdistinct.2.2 o.1 (List.mem_map_of_mem ho) member (by simp)
  · exact h.ordinary (member, value) (by simp)
  · exact h.apart (member, value) (by simp) o ho

/-- A further member with a string is a further property. -/
theorem enumObject_concat_string {members : Members} {member text : String}
    (h : WellNamed ops (members ++ [(member, .string text)])) :
    enumObject ops (members ++ [(member, .string text)])
      = (enumObject ops members).put member (.string text) := by
  obtain ⟨hnew, hordinary, -⟩ := h.concat
  funext key
  rw [enumObject, lookup_concat, Object.put]
  by_cases hkey : key = member
  · subst hkey
    rw [lookup_eq_none hnew, if_pos rfl, if_pos ⟨rfl, hordinary⟩]
    rfl
  · rw [if_neg hkey, if_neg fun h => hkey h.1, Option.or_none, enumObject]
    simp [hasKey]

/-- A further member with a number is a further property, and its name is the number's. -/
theorem enumObject_concat_number {members : Members} {member : String} {x : Binary64}
    (h : WellNamed ops (members ++ [(member, .number x)])) :
    enumObject ops (members ++ [(member, .number x)])
      = ((enumObject ops members).put member (.number x)).put (ops.key x) (.string member) := by
  obtain ⟨hnew, hordinary, hapart⟩ := h.concat
  have hnames : ∀ other ∈ members, other.1 ≠ ops.key x := by
    intro other hother heq
    have := hapart other (List.mem_append_left _ hother)
    simp [hasKey, heq] at this
  have hown : member ≠ ops.key x := by
    intro heq
    have := hapart (member, .number x) (by simp)
    simp [hasKey, heq] at this
  funext key
  rw [enumObject, lookup_concat, Object.put, Object.put]
  -- The number's property is put last; no member has its name, so it hides nothing.
  by_cases hnumber : key = ops.key x
  · subst hnumber
    rw [lookup_eq_none hnames, if_neg (Ne.symm hown), if_pos ⟨rfl, ops.key_ne x⟩]
    simp [hasKey]
  · by_cases hkey : key = member
    · subst hkey
      rw [lookup_eq_none hnew, if_pos rfl, if_neg fun h => hnumber h.1, if_pos ⟨rfl, hordinary⟩]
      rfl
    · rw [if_neg hkey, if_neg fun h => hnumber h.1, if_neg fun h => hkey h.1, Option.or_none,
        enumObject]
      simp [hasKey, Ne.symm hnumber]

/-- The last member's property is its value. -/
theorem enumObject_getLast {members : Members} (h : WellNamed ops members) {member : String}
    {value : Primitive} (hlast : members.getLast? = some (member, value)) :
    enumObject ops members member = some value := by
  obtain ⟨front, rfl⟩ := List.getLast?_eq_some_iff.mp hlast
  rw [enumObject, lookup_concat, lookup_eq_none h.concat.1, if_pos rfl]
  rfl

/-! ## §2. The step -/

/-- The text of a number spells it. -/
theorem numberText_spells (ops : Operators) (source : List Char) (name : String) (nodes : List Node)
    {x : Binary64} (h : IsPlain x) :
    ∃ e, Spells source name nodes e (numberText x) ∧ ∀ o, e.run? ops o = some (.number x, o) := by
  obtain @⟨negative, m, e, hnormal, hzero⟩ := h
  obtain ⟨text, hreads, htext⟩ := readsNumber_numberText hnormal hzero
  have hreads : ReadsNumber (String.ofList text).toList (.finite false m e) := by
    rwa [String.toList_ofList]
  cases negative with
  | false =>
    have heq : numberText (.finite false m e) = String.ofList text :=
      String.toList_inj.mp (by simpa using htext)
    rw [heq]
    exact ⟨_, .number hreads, fun o => rfl⟩
  | true =>
    have heq : numberText (.finite true m e) = "-" ++ String.ofList text :=
      String.toList_inj.mp (by simpa using htext)
    rw [heq]
    refine ⟨_, .negative hreads, fun o => ?_⟩
    rw [Expression.run?, ops.minus]
    rfl

/-- Whether an initializer means the same where it is copied to. -/
def IsPortable (ops : Operators) (init : Node) : Prop :=
  match literalNumber? init with
  | some x => IsPlain x
  | none => (∃ text, init.kind = .string text) ∨
      ∃ x, init.value? ops false (fun _ => none) = some (.number x)

/-- Whether what the next member is given is the number that a counter has, or one more than what
is under the key that it has. -/
inductive CountsOn (ops : Operators) (before : Members) : Counter → Prop where
  | at {x : Binary64} (hplain : IsPlain x)
    (hnext : memberValue? ops before none = some (.number x)) : CountsOn ops before (.at x)
  | after {key member : String} {value : Primitive} (hlast : before.getLast? = some (member, value))
    (hkey : ReadsString key.toList member) : CountsOn ops before (.after key)

theorem memberValue?_concat_number (before : Members) (member : String) (x : Binary64) :
    memberValue? ops (before ++ [(member, .number x)]) none = some (.number (x.add (ofNat 1))) := by
  simp [memberValue?]

/-- Whether a text is that of a statement which makes the object of some members that of others. -/
def Fills (ops : Operators) (source : List Char) (name : String) (nodes : List Node)
    (before after : Members) (text : String) : Prop :=
  ∃ e, Spells source name nodes e text ∧
    ∃ v, e.run? ops (enumObject ops before) = some (v, enumObject ops after)

variable {nodes : List Node} {before : Members} {member key : String}

/-- A number is given both ways. -/
theorem bothWays_fills {text : String} {x : Binary64} {e : Expression}
    (hkey : ReadsString key.toList member)
    (hnames : WellNamed ops (before ++ [(member, .number x)]))
    (hspells : Spells source name nodes e text)
    (hrun : e.run? ops (enumObject ops before) = some (.number x, enumObject ops before)) :
    ∃ statement, bothWays name key text = statement ++ "; " ∧
      Fills ops source name nodes before (before ++ [(member, .number x)]) statement := by
  refine ⟨name ++ "[" ++ (name ++ "[" ++ key ++ "] = " ++ text) ++ "] = " ++ key, ?_,
    .set (.set (.string member) e) (.string member), ?_, .string member, ?_⟩
  · simp only [bothWays, String.append_assoc]
  · exact .set (.set (.string hkey) hspells) (.string hkey)
  · rw [enumObject_concat_number hnames]
    simp only [Expression.run?, Option.bind_some, hrun, Option.map_some, Operators.keyOf]

/-- One more than the member in front is given both ways. -/
theorem next_fills {previous last : String} {x : Binary64} (hkey : ReadsString key.toList member)
    (hnames : WellNamed ops (before ++ [(member, .number (x.add (ofNat 1)))]))
    (hlast : before.getLast? = some (last, .number x))
    (hprevious : ReadsString previous.toList last) :
    ∃ statement, bothWays name key (name ++ "[" ++ previous ++ "] + 1") = statement ++ "; " ∧
      Fills ops source name nodes before (before ++ [(member, .number (x.add (ofNat 1)))])
        statement := by
  have hone : ReadsNumber "1".toList (ofNat 1) := readsNumber_whole (isWhole_toDigits 1)
  -- The text is cut where its parts meet: the property, the operator, and the number.
  have htext : name ++ "[" ++ previous ++ "] + 1"
      = name ++ "[" ++ previous ++ "]" ++ " + " ++ "1" := by
    rw [show "] + 1" = "]" ++ (" + " ++ "1") from rfl]
    simp only [String.append_assoc]
  rw [htext]
  refine bothWays_fills hkey hnames (.plus (.get (.string hprevious)) (.number hone)) ?_
  simp only [Expression.run?, Option.bind_some, Operators.keyOf,
    enumObject_getLast hnames.left hlast, Option.map_some, ops.plus]

/-- A string is given one way. -/
theorem string_fills {init : Node} {text : String} (hkey : ReadsString key.toList member)
    (hnames : WellNamed ops (before ++ [(member, .string text)]))
    (hinit : IsInitializer source nodes init)
    (hvalue : init.value? ops false (fun _ => none) = some (.string text)) :
    Fills ops source name nodes before (before ++ [(member, .string text)])
      (name ++ "[" ++ key ++ "] = " ++ textAt source init.span) := by
  refine ⟨.set (.string member) (.copied init), .set (.string hkey) (.copied hinit),
    .string text, ?_⟩
  rw [enumObject_concat_string hnames]
  simp only [Expression.run?, Option.bind_some, hvalue, Option.map_some, Operators.keyOf]

/-- What means a number without any names is neither a string nor a template. -/
theorem enumValue_of_value? {init : Node} {x : Binary64} (hliteral : literalNumber? init = none)
    (hvalue : init.value? ops false (fun _ => none) = some (.number x)) :
    enumValue source init = .computed (textAt source init.span) := by
  obtain ⟨kind, span, children⟩ := init
  rw [enumValue, hliteral]
  dsimp only
  split
  · next text hkind =>
    obtain rfl : kind = .string text := hkind
    rw [Node.value?] at hvalue
    obtain ⟨_, _, h⟩ := Option.map_eq_some_iff.mp hvalue
    cases h
  · next hkind =>
    obtain rfl : kind = .template := hkind
    rw [Node.value?.eq_def] at hvalue
    cases children with
    | nil => cases hvalue
    | cons a rest => cases rest <;> cases hvalue
  · rfl

/-- What a member with an initializer is given. -/
theorem initializer_fills {init : Node} {value : Primitive} (hkey : ReadsString key.toList member)
    (hinit : IsInitializer source nodes init) (hportable : IsPortable ops init)
    (hvalue : memberValue? ops before (some init) = some value)
    (hnames : WellNamed ops (before ++ [(member, value)])) (counter : Counter) :
    ∃ statement next,
      memberText name counter ⟨key, enumValue source init⟩ = (statement ++ "; ", next) ∧
      Fills ops source name nodes before (before ++ [(member, value)]) statement ∧
      CountsOn ops (before ++ [(member, value)]) next := by
  have hafter : CountsOn ops (before ++ [(member, value)]) (.after key) :=
    .after List.getLast?_concat hkey
  unfold IsPortable at hportable
  rw [memberValue?] at hvalue
  split at hportable
  · next x hliteral =>
    rw [Node.value?_of_literalNumber? hliteral, Option.some.injEq] at hvalue
    subst hvalue
    obtain ⟨e, hspells, hrun⟩ := numberText_spells ops source name nodes hportable
    obtain ⟨statement, htext, hfills⟩ := bothWays_fills hkey hnames hspells (hrun _)
    rw [enumValue, hliteral]
    exact ⟨statement, .at (x.add (ofNat 1)), by rw [← htext]; rfl, hfills,
      .at hportable.add_one (memberValue?_concat_number before member x)⟩
  · next hliteral =>
    -- A string stands by itself, so its text is all that it means; anything else is a number.
    rcases hportable with ⟨text?, hkind⟩ | ⟨x, hx⟩
    · obtain ⟨kind, span, children⟩ := init
      obtain rfl : kind = .string text? := hkind
      have hsame (typed : Bool) (scope : String → Option Primitive) :
          (Node.mk (.string text?) span children).value? ops typed scope = text?.map .string := by
        rw [Node.value?]
      rw [hsame] at hvalue
      obtain ⟨text, rfl, rfl⟩ := Option.map_eq_some_iff.mp hvalue
      exact ⟨_, .after key, rfl, string_fills hkey hnames hinit (hsame _ _), hafter⟩
    · rw [Node.value?_mono true _ init hx, Option.some.injEq] at hvalue
      subst hvalue
      have hrun : (Expression.copied init).run? ops (enumObject ops before)
          = some (.number x, enumObject ops before) := by
        rw [Expression.run?, hx, Option.map_some]
      obtain ⟨statement, htext, hfills⟩ := bothWays_fills hkey hnames (.copied hinit) hrun
      rw [enumValue_of_value? hliteral hx]
      exact ⟨statement, .after key, by rw [← htext]; rfl, hfills, hafter⟩

/-- What a member without an initializer is given. -/
theorem counter_fills {value : Primitive} {counter : Counter} (hkey : ReadsString key.toList member)
    (hcount : CountsOn ops before counter) (hvalue : memberValue? ops before none = some value)
    (hnames : WellNamed ops (before ++ [(member, value)])) :
    ∃ statement next, memberText name counter ⟨key, .next⟩ = (statement ++ "; ", next) ∧
      Fills ops source name nodes before (before ++ [(member, value)]) statement ∧
      CountsOn ops (before ++ [(member, value)]) next := by
  cases hcount with
  | @«at» x hplain hnext =>
    obtain rfl : value = .number x := Option.some.inj (hvalue.symm.trans hnext)
    obtain ⟨e, hspells, hrun⟩ := numberText_spells ops source name nodes hplain
    obtain ⟨statement, htext, hfills⟩ := bothWays_fills hkey hnames hspells (hrun _)
    exact ⟨statement, .at (x.add (ofNat 1)), by rw [← htext]; rfl, hfills,
      .at hplain.add_one (memberValue?_concat_number before member x)⟩
  | @after previous last lastValue hlast hprevious =>
    rw [memberValue?, hlast] at hvalue
    cases lastValue with
    | string text => cases hvalue
    | number x =>
      obtain rfl := Option.some.inj hvalue
      obtain ⟨statement, htext, hfills⟩ := next_fills hkey hnames hlast hprevious
      exact ⟨statement, .after key, by rw [← htext]; rfl, hfills, .after List.getLast?_concat hkey⟩

variable (name) in
/-- **What the statement for a member does**: it adds the member to the object, and the next one
counts on from there. -/
theorem memberText_fills {node : Node} {init : Option Node} {value : Primitive} {counter : Counter}
    (hnode : node ∈ nodes) (hmember : IsMember source node member init)
    (hportable : ∀ i ∈ init, IsPortable ops i) (hcount : CountsOn ops before counter)
    (hvalue : memberValue? ops before init = some value)
    (hnames : WellNamed ops (before ++ [(member, value)])) :
    ∃ item statement next, enumMember source node = some item ∧
      memberText name counter item = (statement ++ "; ", next) ∧
      Fills ops source name nodes before (before ++ [(member, value)]) statement ∧
      CountsOn ops (before ++ [(member, value)]) next := by
  have hinit (i : Node) (hi : init = some i) : IsInitializer source nodes i :=
    ⟨node, hnode, member, hi ▸ hmember⟩
  cases hmember with
  | word span id hname =>
    exact ⟨_, (counter_fills (readsString_quoted hname) hcount hvalue hnames).imp fun _ h =>
      h.imp fun _ h => ⟨rfl, h⟩⟩
  | wordValue span id init hname =>
    exact ⟨_, (initializer_fills (readsString_quoted hname) (hinit init rfl) (hportable init rfl)
      hvalue hnames counter).imp fun _ h => h.imp fun _ h => ⟨rfl, h⟩⟩
  | quoted span hkey =>
    exact ⟨_, (counter_fills hkey hcount hvalue hnames).imp fun _ h => h.imp fun _ h => ⟨rfl, h⟩⟩
  | quotedValue span init hkey =>
    exact ⟨_, (initializer_fills hkey (hinit init rfl) (hportable init rfl) hvalue hnames
      counter).imp fun _ h => h.imp fun _ h => ⟨rfl, h⟩⟩

/-! ## §3. The run -/

/-- The members so far are the first ones of all. -/
theorem Evaluates.exists_append {rest : List Node} {after : Members}
    (h : Evaluates ops source before rest after) : ∃ more, after = before ++ more := by
  induction h with
  | done members => exact ⟨[], (List.append_nil _).symm⟩
  | next _ _ _ ih =>
    obtain ⟨more, rfl⟩ := ih
    exact ⟨_, List.append_assoc ..⟩

variable (name) in
/-- **What the statements for members do.** -/
theorem membersText_fills {rest : List Node} {after : Members} {counter : Counter}
    (h : Evaluates ops source before rest after) (hrest : ∀ node ∈ rest, node ∈ nodes)
    (hportable : ∀ init, IsInitializer source nodes init → IsPortable ops init)
    (hcount : CountsOn ops before counter) (hnames : WellNamed ops after) :
    ∃ statements, SpellsAll source name nodes statements
        (membersText name counter (rest.filterMap (enumMember source))) ∧
      runAll? ops statements (enumObject ops before) = some (enumObject ops after) := by
  -- What is carried along is that the counter stands for what the next member is given.
  induction h generalizing counter with
  | done members => exact ⟨[], .nil, rfl⟩
  | @next before after node rest member init value hmember hvalue hlater ih =>
    obtain ⟨hnode, hrest⟩ := List.forall_mem_cons.mp hrest
    have hbefore : WellNamed ops (before ++ [(member, value)]) := by
      obtain ⟨more, rfl⟩ := hlater.exists_append
      exact hnames.left
    obtain ⟨item, statement, next, hitem, htext, ⟨e, hspells, v, hrun⟩, hnext⟩ :=
      memberText_fills name hnode hmember
        (fun i hi => hportable i ⟨node, hnode, member, hi ▸ hmember⟩) hcount hvalue hbefore
    obtain ⟨statements, hall, hrunAll⟩ := ih hrest hnext hnames
    refine ⟨e :: statements, ?_, ?_⟩
    · rw [List.filterMap_cons_some hitem, membersText, htext]
      exact .cons hspells hall
    · rw [runAll?, hrun]
      exact hrunAll

/-- **Lowered enums keep their meaning**: the text that replaces an enum declares a variable and
fills its object, which then is the one that the enum denotes. -/
theorem replaceEnum_keepsMeaning (isConst : Bool) {span idSpan : Span} {values : Members}
    (hvalues : Evaluates ops source [] nodes values)
    (hportable : ∀ init, IsInitializer source nodes init → IsPortable ops init)
    (hnames : WellNamed ops values) :
    ∃ text statements,
      replaceEnum source (.mk (.enumDecl name false isConst) span
          (.leaf (.ident name) idSpan :: nodes))
        = [.replace (if isConst then extendedStart source span.start "const" else span.start)
            span.stop text] ∧
      SpellsFilling source name nodes statements text ∧
      runAll? ops statements (fun _ => none) = some (enumObject ops values) := by
  obtain ⟨statements, hspells, hrun⟩ := membersText_fills name hvalues
    (fun _ h => h) hportable (.at isPlain_zero rfl) hnames
  exact ⟨_, statements, rfl, ⟨_, hspells, rfl⟩, hrun⟩

/-! ## §4. Enums -/

/-- An enum with a sum, a member behind it and a string. -/
def sumEnum : List Char := "enum E \x7b A = 1 + 1, B, C = 'x' \x7d".toList

/-- The members of that enum. -/
def sumMembers : List Node :=
  [.mk (.enumMember (.word "A")) ⟨9, 18⟩ [.leaf (.ident "A") ⟨9, 10⟩,
      .mk (.binary "+") ⟨13, 18⟩ [.leaf (.number (ofNat 1)) ⟨13, 14⟩,
        .leaf (.number (ofNat 1)) ⟨17, 18⟩]],
    .mk (.enumMember (.word "B")) ⟨20, 21⟩ [.leaf (.ident "B") ⟨20, 21⟩],
    .mk (.enumMember (.word "C")) ⟨23, 30⟩ [.leaf (.ident "C") ⟨23, 24⟩,
      .leaf (.string (some "x")) ⟨27, 30⟩]]

/-- What they mean. -/
def sumValues : Members :=
  [("A", .number (ofNat 2)), ("B", .number (ofNat 3)), ("C", .string "x")]

theorem sumMembers_evaluate : Evaluates arithmetic sumEnum [] sumMembers sumValues :=
  .next (.wordValue _ _ _ (by decide)) (by decide +kernel) <|
    .next (.word _ _ (by decide)) (by decide +kernel) <|
    .next (.wordValue _ _ _ (by decide)) (by decide +kernel) (.done _)

theorem sumMembers_portable {init : Node} (h : IsInitializer sumEnum sumMembers init) :
    IsPortable arithmetic init := by
  obtain ⟨node, hnode, member, hmember⟩ := h
  simp only [sumMembers, List.mem_cons, List.not_mem_nil, or_false] at hnode
  rcases hnode with rfl | rfl | rfl
  · cases hmember
    exact .inr ⟨ofNat 2, by decide +kernel⟩
  · cases hmember
  · cases hmember
    exact .inl ⟨_, rfl⟩

theorem sumValues_wellNamed : WellNamed arithmetic sumValues where
  distinct := by decide
  apart := by decide +kernel
  ordinary := by decide

theorem replaceEnum_keepsMeaning_sum :
    Evaluates arithmetic sumEnum [] sumMembers sumValues ∧
      (∀ init, IsInitializer sumEnum sumMembers init → IsPortable arithmetic init) ∧
      WellNamed arithmetic sumValues ∧
      ∃ text statements,
        replaceEnum sumEnum (.mk (.enumDecl "E" false false) ⟨0, 32⟩
            (.leaf (.ident "E") ⟨5, 6⟩ :: sumMembers)) = [.replace 0 32 text] ∧
        SpellsFilling sumEnum "E" sumMembers statements text ∧
        runAll? arithmetic statements (fun _ => none) = some (enumObject arithmetic sumValues) :=
  ⟨sumMembers_evaluate, fun _ => sumMembers_portable, sumValues_wellNamed,
    replaceEnum_keepsMeaning false sumMembers_evaluate (fun _ => sumMembers_portable)
      sumValues_wellNamed⟩

/-- An enum with a member that refers to another. -/
def referringEnum : List Char := "enum E \x7b A = 1, B = A + 1 \x7d\n".toList

/-- The sum that refers to a member. -/
def referringSum : Node :=
  .mk (.binary "+") ⟨20, 25⟩ [.leaf (.ident "A") ⟨20, 21⟩, .leaf (.number (ofNat 1)) ⟨24, 25⟩]

/-- The members of that enum. -/
def referringMembers : List Node :=
  [.mk (.enumMember (.word "A")) ⟨9, 14⟩ [.leaf (.ident "A") ⟨9, 10⟩,
      .leaf (.number (ofNat 1)) ⟨13, 14⟩],
    .mk (.enumMember (.word "B")) ⟨16, 25⟩ [.leaf (.ident "B") ⟨16, 17⟩, referringSum]]

/-- The statements that they are lowered to. -/
def referringStatements : List Expression :=
  [.set (.set (.string "A") (.number (ofNat 1))) (.string "A"),
    .set (.set (.string "B") (.copied referringSum)) (.string "B")]

/-- What the enum is replaced by. -/
def referringText : String :=
  "var E; (function (E) \x7b E[E[\"A\"] = 1] = \"A\"; E[E[\"B\"] = A + 1] = \"B\"; \x7d)"
    ++ "(E || (E = \x7b\x7d));"

theorem referringText_spells :
    SpellsFilling referringEnum "E" referringMembers referringStatements referringText := by
  have hone : ReadsNumber "1".toList (ofNat 1) := readsNumber_whole (isWhole_toDigits 1)
  have ha : ReadsString (quoted "A").toList "A" := readsString_quoted (by decide)
  have hb : ReadsString (quoted "B").toList "B" := readsString_quoted (by decide)
  have hsum : IsInitializer referringEnum referringMembers referringSum :=
    ⟨_, List.mem_cons_of_mem _ (List.mem_cons_self ..), "B", .wordValue _ _ _ (by decide)⟩
  exact ⟨_, .cons (.set (.set (.string ha) (.number hone)) (.string ha))
    (.cons (.set (.set (.string hb) (.copied hsum)) (.string hb)) .nil), by decide +kernel⟩

/-- **A reference is copied**: the second member is 2, and what it is lowered to does not run, since
its sum stands where no name but the object's stands for anything. -/
theorem replaceEnum_copiedReference :
    Evaluates arithmetic referringEnum [] referringMembers
        [("A", .number (ofNat 1)), ("B", .number (ofNat 2))] ∧
      rewrite ⟨true, .preserved, .shared, .none, true⟩ referringEnum
        = .ok (referringText ++ "\n").toList ∧
      replaceEnum referringEnum (.mk (.enumDecl "E" false false) ⟨0, 27⟩
          (.leaf (.ident "E") ⟨5, 6⟩ :: referringMembers)) = [.replace 0 27 referringText] ∧
      SpellsFilling referringEnum "E" referringMembers referringStatements referringText ∧
      runAll? arithmetic referringStatements (fun _ => none) = none := by
  refine ⟨?_, rewrite_eq_ok_iff.mpr (by decide +kernel), by decide +kernel, referringText_spells,
    by decide +kernel⟩
  exact .next (.wordValue _ _ _ (by decide)) (by decide +kernel) <|
    .next (.wordValue _ _ _ (by decide)) (by decide +kernel) (.done _)

end SingleFile.Script
