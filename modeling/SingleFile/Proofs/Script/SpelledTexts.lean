/-
  SingleFile.Proofs.Script.SpelledTexts — WHAT TEXTS OF A LOWERING ARE MADE OF
  ────────────────────────────────────────────────────────────────────────────
  Every text that a rewrite writes is told apart: names that the tree spells
  and text that is copied stand between words of the rewrite's own.  Taking
  types out never uses a made name.

  Main results:
    * `fieldAssignments_spelled`, `enumText_spelled` — the two texts that
      stand in the place of types.
    * `eraseAll_spelled` — no erasure uses a made name.
    * `exportActions_spelled` — neither does the export of a declaration.
-/
import SingleFile.Proofs.Script.ExportNames
import SingleFile.Proofs.Script.MadeNames
import SingleFile.Proofs.Script.ModuleForms

namespace SingleFile.Script

open SingleFile.Text

variable {source : List Char} {items nodes : List Node} {available : List MadeName}

/-! ## §1. Names in a tree -/

theorem namesIn_children_subset {n : Node} (hn : n ∈ subtreesOf nodes) :
    namesIn n.children ⊆ namesIn nodes :=
  namesIn_subset (subtreesOf_children_of_mem_subtreesOf nodes hn)

/-- **The names that a pattern binds** are spelled in it. -/
theorem Binds.mem_namesIn {name : String} {n : Node} (h : Binds name n) : name ∈ namesIn [n] := by
  have hbelow {n m : Node} (hm : m ∈ n.children) (h : name ∈ namesIn [m]) : name ∈ namesIn [n] :=
    namesIn_subset (subtreesOf_children_subset n)
      (namesIn_subset (subtreesOf_singleton_subset (mem_subtreesOf_of_mem hm)) h)
  induction h with
  | name =>
    exact Script.mem_namesIn (mem_subtreesOf_of_mem (List.mem_singleton_self _))
      (List.mem_singleton_self _)
  | element hn _ ih => exact hbelow hn ih
  | property hn _ ih => exact hbelow hn ih
  | value hn _ ih => exact hbelow (List.mem_of_getLast? hn) ih
  | shorthand _ ih => exact hbelow (List.mem_cons_self ..) ih
  | rest _ ih => exact hbelow (List.mem_cons_self ..) ih
  | defaulted _ ih => exact hbelow (List.mem_cons_self ..) ih
  | declarator _ ih => exact hbelow (List.mem_cons_self ..) ih

theorem declaredName?_mem_namesIn {name : String} {n : Node} (h : declaredName? n = some name) :
    name ∈ namesIn n.children := by
  unfold declaredName? at h
  obtain ⟨first, hfirst, hident⟩ := Option.bind_eq_some_iff.mp h
  unfold Node.ident? at hident
  split at hident
  · next hkind =>
    obtain rfl := Option.some.inj hident
    refine mem_namesIn (mem_subtreesOf_of_mem (List.mem_of_head? hfirst)) ?_
    rw [hkind]
    exact List.mem_singleton_self _
  · exact absurd hident (by simp)

/-- The names that an exported declaration exports are spelled in it. -/
theorem exportedNames_subset (n : Node) : exportedNames n ⊆ namesIn [n] := by
  have hbelow := namesIn_subset (subtreesOf_children_subset n)
  intro name hname
  unfold exportedNames at hname
  split at hname
  · exact hbelow (declaredName?_mem_namesIn (Option.mem_toList.mp hname))
  · obtain ⟨child, hchild, hname⟩ := List.mem_flatMap.mp hname
    exact hbelow (namesIn_subset (subtreesOf_singleton_subset (mem_subtreesOf_of_mem hchild))
      (mem_boundNames.mp hname).mem_namesIn)
  · next hkind =>
    refine mem_namesIn (mem_subtreesOf_of_mem (List.mem_singleton_self n)) ?_
    rw [hkind]
    exact hname
  · exact absurd hname List.not_mem_nil

/-! ## §2. What stands in the place of types -/

theorem fieldName?_mem_namesIn {parts : List Node} {name : String}
    (h : fieldName? parts = some name) : name ∈ namesIn parts := by
  unfold fieldName? at h
  -- The last part binds the name itself, or through a pattern with a default.
  split at h
  · next hlast =>
    obtain rfl := Option.some.inj h
    exact mem_namesIn (mem_subtreesOf_of_mem (List.mem_of_getLast? hlast))
      (List.mem_singleton_self _)
  · next hlast =>
    obtain rfl := Option.some.inj h
    exact namesIn_children_subset (mem_subtreesOf_of_mem (List.mem_of_getLast? hlast))
      (mem_namesIn (mem_subtreesOf_of_mem (List.mem_cons_self ..)) (List.mem_singleton_self _))
  · exact absurd h (by simp)

/-- **Assignments to declared fields are plain.** -/
theorem fieldAssignments_spelled (hsub : namesIn nodes ⊆ namesIn items) :
    IsSpelled source items available (fieldAssignments nodes) := by
  induction nodes with
  | nil => exact .empty
  | cons n rest ih =>
    have hrest := ih fun name hname => hsub (namesIn_subset
      (subtreesOf_mono (List.subset_cons_self ..)) hname)
    unfold fieldAssignments
    split
    · exact .empty
    · next heq =>
      obtain ⟨rfl, rfl⟩ := List.cons.inj heq
      refine .append ?_ hrest
      split
      · next name hname =>
        have hname : name ∈ namesIn items := hsub (namesIn_children_subset
          (mem_subtreesOf_of_mem (List.mem_cons_self ..)) (fieldName?_mem_namesIn hname))
        exact ((((IsSpelled.word (by decide)).append (.name hname)).append
          (.word (by decide))).append (.name hname)).append (.word (by decide))
      · exact .empty
    · next heq =>
      obtain ⟨rfl, rfl⟩ := List.cons.inj heq
      exact hrest

/-- Whether the text that a member gets its value from is plain, if there is one. -/
def EnumValue.IsPlain (source : List Char) (items : List Node) : EnumValue → Prop
  | next => True
  | number _ => True
  | string text => Script.IsPlain source items text
  | computed text => Script.IsPlain source items text

theorem enumValue_isPlain (value : Node) : (enumValue source value).IsPlain source items := by
  unfold enumValue
  split
  · trivial
  · split <;> exact .textAt value.span

/-- The key and the value of a member are plain. -/
theorem enumMember_isPlain {n : Node} {member : EnumMember} (hn : n ∈ subtreesOf items)
    (h : enumMember source n = some member) :
    IsPlain source items member.key ∧ member.value.IsPlain source items := by
  unfold enumMember at h
  -- A word is quoted, and what is quoted already is copied.
  split at h
  · obtain rfl := Option.some.inj h
    exact ⟨.key (mem_namesIn hn (List.mem_singleton_self _)), enumValue_isPlain _⟩
  · obtain rfl := Option.some.inj h
    exact ⟨.key (mem_namesIn hn (List.mem_singleton_self _)), trivial⟩
  · obtain rfl := Option.some.inj h
    exact ⟨.textAt _, enumValue_isPlain _⟩
  · obtain rfl := Option.some.inj h
    exact ⟨.textAt _, trivial⟩
  · exact absurd h (by simp)

theorem bothWays_spelled {name key value : String} (hname : name ∈ namesIn items)
    (hkey : IsPlain source items key) (hvalue : IsSpelled source items available value) :
    IsSpelled source items available (bothWays name key value) := by
  have hopen : IsSpelled source items available (name ++ "[" ++ name ++ "[" ++ key) :=
    ((((IsSpelled.name hname).append (.word (by decide))).append (.name hname)).append
      (.word (by decide))).append (.plain hkey)
  exact ((((hopen.append (.word (by decide))).append hvalue).append (.word (by decide))).append
    (.plain hkey)).append (.word (by decide))

/-- Whether the key that the next member counts on from is plain. -/
def Counter.IsPlain (source : List Char) (items : List Node) : Counter → Prop
  | .at _ => True
  | after key => Script.IsPlain source items key

/-- The statement for a member is plain, and so is what the next one counts on from. -/
theorem memberText_spelled {name : String} {counter : Counter} {member : EnumMember}
    (hname : name ∈ namesIn items) (hcounter : counter.IsPlain source items)
    (hkey : IsPlain source items member.key) (hvalue : member.value.IsPlain source items) :
    IsSpelled source items available (memberText name counter member).1 ∧
      (memberText name counter member).2.IsPlain source items := by
  have hnumber (x : Number.Binary64) : IsSpelled source items available (numberText x) :=
    .word (isFree_of_not_mem (underscore_not_mem_numberText x))
  obtain ⟨key, value⟩ := member
  cases value with
  | next =>
    cases counter with
    | «at» x => exact ⟨bothWays_spelled hname hkey (hnumber x), trivial⟩
    | after previous =>
      have hsum : IsSpelled source items available (name ++ "[" ++ previous ++ "] + 1") :=
        (((IsSpelled.name hname).append (.word (by decide))).append (.plain hcounter)).append
          (.word (by decide))
      exact ⟨bothWays_spelled hname hkey hsum, hkey⟩
  | number x => exact ⟨bothWays_spelled hname hkey (hnumber x), trivial⟩
  | string text =>
    exact ⟨((((((IsSpelled.name hname).append (.word (by decide))).append (.plain hkey)).append
      (.word (by decide))).append (.plain hvalue)).append (.word (by decide))), hkey⟩
  | computed text => exact ⟨bothWays_spelled hname hkey (.plain hvalue), hkey⟩

theorem membersText_spelled {name : String} {counter : Counter} {members : List EnumMember}
    (hname : name ∈ namesIn items) (hcounter : counter.IsPlain source items)
    (hmembers : ∀ member ∈ members,
      IsPlain source items member.key ∧ member.value.IsPlain source items) :
    IsSpelled source items available (membersText name counter members) := by
  induction members generalizing counter with
  | nil => exact .empty
  | cons member rest ih =>
    obtain ⟨hmember, hrest⟩ := List.forall_mem_cons.mp hmembers
    obtain ⟨htext, hnext⟩ := memberText_spelled hname hcounter hmember.1 hmember.2
    exact htext.append (ih hnext hrest)

/-- **The text of an enum is plain.** -/
theorem enumText_spelled {name : String} {members : List EnumMember}
    (hname : name ∈ namesIn items) (hmembers : ∀ member ∈ members,
      IsPlain source items member.key ∧ member.value.IsPlain source items) :
    IsSpelled source items available (enumText name members) := by
  have hopen : IsSpelled source items available ("var " ++ name ++ "; (function (" ++ name) :=
    (((IsSpelled.word (by decide)).append (.name hname)).append (.word (by decide))).append
      (.name hname)
  have hbody : IsSpelled source items available (membersText name (.at (.ofNat 0)) members) :=
    membersText_spelled hname trivial hmembers
  exact (((((((hopen.append (.word (by decide))).append hbody).append (.word (by decide))).append
    (.name hname)).append (.word (by decide))).append (.name hname)).append (.word (by decide)))

/-! ## §3. Erasures -/

/-- The text that an action writes. -/
def Action.text : Action → String
  | insert _ text => text
  | replace _ _ text => text
  | blank _ _ => ""
  | refuse _ _ => ""
  | look _ => ""

/-- **No erasure uses a made name.** -/
theorem eraseAll_spelled {a : Action} (ha : a ∈ eraseAll source nodes)
    (hsub : subtreesOf nodes ⊆ subtreesOf items) : IsSpelled source items [] a.text := by
  cases eraseAll_erases ha with
  | blank start stop => exact .empty
  | refuse construct offset => exact .empty
  | look offset => exact .empty
  | @assign n _ hn ha =>
    obtain ⟨body, -, ha⟩ := List.mem_flatMap.mp ha
    have htext : IsSpelled source items [] (fieldAssignments n.children) :=
      fieldAssignments_spelled (namesIn_children_subset (hsub hn))
    obtain ⟨offset, rfl⟩ | ⟨offset, separator, hseparator, rfl⟩ := mem_insertAssignments ha
    · exact .empty
    · refine .append ?_ htext
      rcases hseparator with rfl | rfl <;> exact .word (by decide)
  | @enum n _ hn ha =>
    have hn := hsub hn
    unfold replaceEnum at ha
    split at ha
    · next name isDeclared isConst hkind =>
      obtain rfl := List.mem_singleton.mp ha
      refine enumText_spelled ?_ fun member hmember => ?_
      · refine mem_namesIn hn ?_
        rw [hkind]
        exact List.mem_singleton_self _
      · obtain ⟨child, hchild, hmember⟩ := List.mem_filterMap.mp hmember
        exact enumMember_isPlain (subtreesOf_children_of_mem_subtreesOf items hn
          (mem_subtreesOf_of_mem hchild)) hmember
    · exact absurd ha List.not_mem_nil

/-! ## §4. Statements -/

theorem varText_spelled {name value : String} (hname : name ∈ namesIn items)
    (hvalue : IsSpelled source items available value) :
    IsSpelled source items available (varText name value) :=
  ((((IsSpelled.word (by decide)).append (.name hname)).append (.word (by decide))).append
    hvalue).append (.word (by decide))

theorem exportOf_spelled {name value : String} (hname : IsSpelled source items available name)
    (hvalue : IsSpelled source items available value) :
    IsSpelled source items available (exportOf name value) :=
  ((((IsSpelled.word (by decide)).append hname).append (.word (by decide))).append
    hvalue).append (.word (by decide))

/-- Names that are exported as themselves. -/
theorem exports_spelled {names : List String} (h : names ⊆ namesIn items) :
    IsSpelled source items available
      (String.join (names.map fun name => exportOf name name)) := by
  refine .join fun text htext => ?_
  obtain ⟨name, hname, rfl⟩ := List.mem_map.mp htext
  exact exportOf_spelled (.name (h hname)) (.name (h hname))

theorem requireCall_spelled (span : Span) :
    IsSpelled source items available (requireCall source span) :=
  ((IsSpelled.word (by decide)).append (.copied span)).append (.word (by decide))

theorem propertyText_spelled {object : String} {name : ModuleName}
    (hobject : IsSpelled source items available object)
    (hname : ∀ word ∈ name.word?, word ∈ namesIn items) :
    IsSpelled source items available (propertyText source object name) := by
  cases name with
  | word name => exact (hobject.append (.word (by decide))).append (.name (hname _ rfl))
  | quoted value span =>
    exact ((hobject.append (.word (by decide))).append (.copied span)).append (.word (by decide))

/-- A shared helper is called by its name; the text of another one is written out. -/
theorem call_spelled {h : Helper} {mode : HelperMode} {arguments : String}
    (hshared : mode = .shared → .helper h ∈ available)
    (harguments : IsSpelled source items available arguments) :
    IsSpelled source items available (h.call mode arguments) := by
  cases mode with
  | shared =>
    exact (((IsSpelled.uses (hshared rfl)).append (.word (by decide))).append harguments).append
      (.word (by decide))
  | inline =>
    have hparameters : IsFree h.parameters := by cases h <;> decide
    have hbody : IsFree h.body := by cases h <;> decide +kernel
    exact ((((((IsSpelled.word (by decide)).append (.word hparameters)).append
      (.word (by decide))).append (.word hbody)).append (.word (by decide))).append
      harguments).append (.word (by decide))

/-- **The export of a declaration uses no made name.** -/
theorem exportActions_spelled {n declaration : Node} (hn : n ∈ items)
    (hchild : n.children = [declaration]) {a : Action}
    (ha : a ∈ exportActions source n declaration) : IsSpelled source items [] a.text := by
  have hdeclaration : declaration ∈ subtreesOf items :=
    subtreesOf_children_of_mem_subtreesOf items (mem_subtreesOf_of_mem hn)
      (hchild ▸ mem_subtreesOf_of_mem (List.mem_singleton_self declaration))
  unfold exportActions at ha
  rcases List.mem_append.mp ha with ha | ha
  · split at ha
    · exact absurd ha List.not_mem_nil
    · obtain rfl := List.mem_singleton.mp ha
      exact .empty
  rcases List.mem_cons.mp ha with rfl | ha
  · show IsSpelled source items [] (if isFunctionDecl declaration = true then _ else _)
    split
    · refine exports_spelled fun name hname => ?_
      exact namesIn_children_subset hdeclaration
        (declaredName?_mem_namesIn (Option.mem_toList.mp hname))
    · exact .empty
  · split at ha
    · exact absurd ha List.not_mem_nil
    · obtain rfl := List.mem_singleton.mp ha
      refine .append ?_ (exports_spelled fun name hname => ?_)
      · split <;> exact .word (by decide)
      · exact namesIn_subset (subtreesOf_singleton_subset hdeclaration)
          (exportedNames_subset declaration hname)

end SingleFile.Script
