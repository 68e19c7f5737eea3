/-
  SingleFile.Proofs.Script.ExportNames — WHAT A MODULE EXPORTS
  ────────────────────────────────────────────────────────────
  What a module exports is read off its syntax: the names that an exported
  declaration declares, the default, and the entries of export lists.  Each
  export is an assignment to a property of `exports`.

  An entry of a local list is no export if its name is purely a type, which it
  is if something declares it as a type and nothing as a value.  A lowering
  asks something simpler, so both questions have the same answer only where
  the names are told apart (`NamesApart`).

  Main results:
    * `mem_boundNames` — the names that a pattern binds.
    * `isTypeName_iff` — where names are told apart, the names that a lowering
      takes for types are purely types.
    * `exportTargets` — what is assigned for the exports of a module.
-/
import SingleFile.Proofs.Script.LoweringEffects

namespace SingleFile.Script

open SingleFile.Text

/-! ## §1. Names that patterns bind -/

/-- Whether a pattern binds a name.  No key and no default binds anything. -/
inductive Binds (name : String) : Node → Prop where
  | name {isOptional : Bool} {span : Span} {children : List Node} :
    Binds name (.mk (.binding name isOptional) span children)
  | element {isOptional : Bool} {span : Span} {children : List Node} {n : Node}
    (hn : n ∈ children) (h : Binds name n) :
    Binds name (.mk (.arrayPattern isOptional) span children)
  | property {isOptional : Bool} {span : Span} {children : List Node} {n : Node}
    (hn : n ∈ children) (h : Binds name n) :
    Binds name (.mk (.objectPattern isOptional) span children)
  | value {span : Span} {children : List Node} {n : Node} (hn : children.getLast? = some n)
    (h : Binds name n) : Binds name (.mk .keyValuePattern span children)
  | shorthand {span : Span} {n : Node} {rest : List Node} (h : Binds name n) :
    Binds name (.mk .shorthandPattern span (n :: rest))
  | rest {span : Span} {n : Node} {rest : List Node} (h : Binds name n) :
    Binds name (.mk .restPattern span (n :: rest))
  | defaulted {span : Span} {n : Node} {rest : List Node} (h : Binds name n) :
    Binds name (.mk .assignPattern span (n :: rest))
  | declarator {isDefinite : Bool} {span : Span} {n : Node} {rest : List Node}
    (h : Binds name n) : Binds name (.mk (.declarator isDefinite) span (n :: rest))

theorem mem_boundNamesOf {name : String} {nodes : List Node} :
    name ∈ boundNamesOf nodes ↔ ∃ n ∈ nodes, name ∈ boundNames n := by
  induction nodes with
  | nil => simp [boundNamesOf]
  | cons n rest ih => simp [boundNamesOf, ih]

theorem lastBoundNames_eq (nodes : List Node) :
    lastBoundNames nodes = (nodes.getLast?.map boundNames).getD [] := by
  induction nodes with
  | nil => simp [lastBoundNames]
  | cons n rest ih =>
    cases rest with
    | nil => simp [lastBoundNames]
    | cons m rest => rw [lastBoundNames, ih, List.getLast?_cons_cons]; simp

theorem mem_boundNames_of_binds {name : String} {n : Node} (h : Binds name n) :
    name ∈ boundNames n := by
  induction h with
  | name => simp [boundNames]
  | element hn h ih =>
    rw [boundNames]
    exact mem_boundNamesOf.mpr ⟨_, hn, ih⟩
  | property hn h ih =>
    rw [boundNames]
    exact mem_boundNamesOf.mpr ⟨_, hn, ih⟩
  | value hn h ih =>
    rw [boundNames, lastBoundNames_eq, hn]
    exact ih
  | shorthand h ih => exact ih
  | rest h ih => exact ih
  | defaulted h ih => exact ih
  | declarator h ih => exact ih

mutual

theorem binds_of_mem_boundNames {name : String} : ∀ n : Node, name ∈ boundNames n → Binds name n
  | .mk kind span children, h => by
    unfold boundNames at h
    split at h
    · obtain rfl := List.mem_singleton.mp h
      exact .name
    · obtain ⟨n, hn, hbinds⟩ := exists_binds_of_mem children h
      exact .element hn hbinds
    · obtain ⟨n, hn, hbinds⟩ := exists_binds_of_mem children h
      exact .property hn hbinds
    · obtain ⟨n, hn, hbinds⟩ := last_binds_of_mem children h
      exact .value hn hbinds
    · obtain ⟨n, rest, rfl, hbinds⟩ := first_binds_of_mem children h
      exact .shorthand hbinds
    · obtain ⟨n, rest, rfl, hbinds⟩ := first_binds_of_mem children h
      exact .rest hbinds
    · obtain ⟨n, rest, rfl, hbinds⟩ := first_binds_of_mem children h
      exact .defaulted hbinds
    · obtain ⟨n, rest, rfl, hbinds⟩ := first_binds_of_mem children h
      exact .declarator hbinds
    · exact absurd h List.not_mem_nil

theorem exists_binds_of_mem {name : String} :
    ∀ nodes : List Node, name ∈ boundNamesOf nodes → ∃ n ∈ nodes, Binds name n
  | [], h => absurd h (by simp [boundNamesOf])
  | n :: rest, h => by
    rw [boundNamesOf] at h
    rcases List.mem_append.mp h with h | h
    · exact ⟨n, List.mem_cons_self .., binds_of_mem_boundNames n h⟩
    · obtain ⟨m, hm, hbinds⟩ := exists_binds_of_mem rest h
      exact ⟨m, List.mem_cons_of_mem _ hm, hbinds⟩

theorem last_binds_of_mem {name : String} :
    ∀ nodes : List Node, name ∈ lastBoundNames nodes →
      ∃ n, nodes.getLast? = some n ∧ Binds name n
  | [], h => absurd h (by simp [lastBoundNames])
  | [n], h => ⟨n, rfl, binds_of_mem_boundNames n h⟩
  | _ :: m :: rest, h => by
    obtain ⟨n, hn, hbinds⟩ := last_binds_of_mem (m :: rest) h
    exact ⟨n, by rw [List.getLast?_cons_cons]; exact hn, hbinds⟩

theorem first_binds_of_mem {name : String} :
    ∀ nodes : List Node, name ∈ firstBoundNames nodes →
      ∃ n rest, nodes = n :: rest ∧ Binds name n
  | [], h => absurd h (by simp [firstBoundNames])
  | n :: rest, h => ⟨n, rest, rfl, binds_of_mem_boundNames n h⟩

end

/-- **The names that a pattern binds.** -/
theorem mem_boundNames {name : String} {n : Node} : name ∈ boundNames n ↔ Binds name n :=
  ⟨binds_of_mem_boundNames n, mem_boundNames_of_binds⟩

/-! ## §2. Types and values -/

mutual

/-- Whether something in a namespace has a value. -/
def isInstantiated : Node → Bool
  | .mk kind _ children =>
    match kind with
    | .interfaceDecl _ => false
    | .typeAlias _ => false
    | .empty => false
    -- The name of the namespace.
    | .ident _ => false
    | .importEquals _ isExport typeOnly _ _ => isExport && !typeOnly
    | .moduleDecl _ => anyInstantiated children
    | .moduleBlock => anyInstantiated children
    | .exportDecl => anyInstantiated children
    | _ => true

/-- Whether one of some things in a namespace has a value. -/
def anyInstantiated : List Node → Bool
  | [] => false
  | n :: rest => isInstantiated n || anyInstantiated rest

end

mutual

/-- The names of the variables in a statement; functions and classes have their own. -/
def variableNames : Node → List String
  | .mk kind _ children =>
    match kind with
    | .variables _ => boundNamesOf children
    | .usingDecl => boundNamesOf children
    | .function .. => []
    | .arrow => []
    | .getterProperty => []
    | .setterProperty => []
    | .classBody _ => []
    | _ => variableNamesOf children

/-- The names of the variables in some statements. -/
def variableNamesOf : List Node → List String
  | [] => []
  | n :: rest => variableNames n ++ variableNamesOf rest

end

/-- The names that a declaration declares as types and as nothing else. -/
def typesOf (n : Node) : List String :=
  match n.kind with
  | .interfaceDecl name => [name]
  | .typeAlias name => [name]
  | .moduleDecl _ => if isInstantiated n then [] else (declaredName? n).toList
  | _ => []

/-- The names that a declaration declares as values. -/
def valuesOf (n : Node) : List String :=
  match n.kind with
  | .functionDecl _ => (declaredName? n).toList
  | .functionExpr => (declaredName? n).toList
  | .classDecl _ => (declaredName? n).toList
  | .classExpr => (declaredName? n).toList
  | .enumDecl name _ _ => [name]
  | .moduleDecl _ => if isInstantiated n then (declaredName? n).toList else []
  | _ => variableNames n

/-- Whether an import marks an item of its as a type. -/
def Import.isMarked (decl : Import) : ImportItem → Bool
  | .named _ _ typeOnly => decl.typeOnly || typeOnly
  | _ => decl.typeOnly

/-- The names that an item of a module declares as types and as nothing else. -/
def declaredTypes (n : Node) : List String :=
  match n.kind with
  | .importDecl decl => (decl.items.filter decl.isMarked).map fun item => item.binding.text
  | .importEquals name _ typeOnly _ _ => if typeOnly then [name] else []
  | .exportDecl => n.children.flatMap typesOf
  | .exportDefaultDecl => n.children.flatMap typesOf
  | _ => typesOf n

/-- The names that an item of a module declares as values. -/
def declaredValues (n : Node) : List String :=
  match n.kind with
  | .importDecl decl =>
    (decl.items.filter fun item => !decl.isMarked item).map fun item => item.binding.text
  | .importEquals name _ typeOnly _ _ => if typeOnly then [] else [name]
  | .exportDecl => n.children.flatMap valuesOf
  | .exportDefaultDecl => n.children.flatMap valuesOf
  | _ => valuesOf n

/-- Whether a name is purely a type: an item declares it as a type, and none as a value. -/
def IsPureType (items : List Node) (name : String) : Prop :=
  name ∈ items.flatMap declaredTypes ∧ name ∉ items.flatMap declaredValues

instance (items : List Node) (name : String) : Decidable (IsPureType items name) :=
  inferInstanceAs (Decidable (_ ∧ _))

/-- Whether an entry of an export list is marked as a type. -/
def ExportItem.isMarked : ExportItem → Bool
  | .named _ _ _ typeOnly => typeOnly
  | .wholeModule _ _ => false

/-- The name of the module's own that an entry of an export list exports. -/
def ExportItem.ownName? : ExportItem → Option String
  | .named _ entity _ _ => entity.word?
  | .wholeModule _ _ => none

/-- The names of the module's own that an item exports by a list, types that are marked apart. -/
def listedNames (n : Node) : List String :=
  match n.kind with
  | .exportList ⟨entries, none, false⟩ =>
    (entries.filter fun entry => !entry.isMarked).filterMap ExportItem.ownName?
  | _ => []

/-- The name of the module's own that an item exports by default or under another name, or that the
entity begins with. -/
def exportedEntity? (n : Node) : Option String :=
  match n.kind with
  | .exportDefaultExpr => n.children.head?.bind Node.ident?
  | .importEquals _ true false _ _ => n.children.head?.bind Node.ident?
  | _ => none

/-- Whether what an item exports by default or under another name is purely a type. -/
def NamesType (items : List Node) (n : Node) : Prop :=
  ∃ name ∈ exportedEntity? n, IsPureType items name

instance (items : List Node) (n : Node) : Decidable (NamesType items n) :=
  decidable_of_iff ((exportedEntity? n).any (fun name => decide (IsPureType items name)) = true)
    (by simp [NamesType, Option.any_eq_true])

/-- The namespaces that an item declares. -/
def namespaceNames (n : Node) : List String :=
  match n.kind with
  | .moduleDecl _ => (declaredName? n).toList
  | .exportDecl => n.children.flatMap fun d =>
    match d.kind with
    | .moduleDecl _ => (declaredName? d).toList
    | _ => []
  | _ => []

/-- Whether the names that a module exports are told apart: of those in lists, what a lowering takes
for a type is not declared as a value too, and every other name that is purely a type is taken for
one; and what is exported by default or under another name is no type, and in no namespace of the
module, which may hold types. -/
structure NamesApart (items : List Node) : Prop where
  notMerged : ∀ name ∈ items.flatMap listedNames, name ∈ items.flatMap typeNames →
    name ∉ items.flatMap declaredValues
  noOther : ∀ name ∈ items.flatMap listedNames, name ∈ items.flatMap declaredTypes →
    name ∈ items.flatMap typeNames ∨ name ∈ items.flatMap declaredValues
  entities : ∀ n ∈ items, ∀ name ∈ exportedEntity? n,
    ¬IsPureType items name ∧ name ∉ items.flatMap namespaceNames

instance (items : List Node) : Decidable (NamesApart items) :=
  decidable_of_iff (_ ∧ _ ∧ _) ⟨fun h => ⟨h.1, h.2.1, h.2.2⟩,
    fun h => ⟨h.notMerged, h.noOther, h.entities⟩⟩

theorem NamesApart.not_namesType {items : List Node} (h : NamesApart items) {n : Node}
    (hn : n ∈ items) : ¬NamesType items n := by
  rintro ⟨name, hname, hpure⟩
  exact (h.entities n hn name hname).1 hpure

/-- What a lowering takes for a type is declared as one. -/
theorem typeNames_subset (n : Node) : typeNames n ⊆ declaredTypes n := by
  intro name hname
  unfold typeNames at hname
  dsimp only at hname
  split at hname
  · next decl hkind =>
    rw [declaredTypes, hkind]
    obtain ⟨item, hitem, hfound⟩ := List.mem_filterMap.mp hname
    refine List.mem_map.mpr ⟨item, List.mem_filter.mpr ⟨hitem, ?_⟩, ?_⟩
    · cases item <;> simp_all [Import.isMarked]
    · cases item <;> simp_all [ImportItem.binding]
  · next hkind =>
    rw [declaredTypes, hkind]
    obtain ⟨d, hd, hname⟩ := List.mem_flatMap.mp hname
    refine List.mem_flatMap.mpr ⟨d, hd, ?_⟩
    split at hname
    · next hkind => rwa [typesOf, hkind]
    · next hkind => rwa [typesOf, hkind]
    · exact absurd hname List.not_mem_nil
  · split at hname
    · next hkind => rwa [declaredTypes, hkind, typesOf, hkind]
    · next hkind => rwa [declaredTypes, hkind, typesOf, hkind]
    · exact absurd hname List.not_mem_nil

/-- **Where names are told apart, those that a lowering takes for types are purely types.** -/
theorem isTypeName_iff {items : List Node} (h : NamesApart items) {name : String}
    (hlisted : name ∈ items.flatMap listedNames) :
    name ∈ items.flatMap typeNames ↔ IsPureType items name := by
  constructor
  · intro hname
    refine ⟨?_, h.notMerged name hlisted hname⟩
    obtain ⟨n, hn, hname⟩ := List.mem_flatMap.mp hname
    exact List.mem_flatMap.mpr ⟨n, hn, typeNames_subset n hname⟩
  · rintro ⟨htype, hvalue⟩
    exact (h.noOther name hlisted htype).resolve_right hvalue

/-! ## §3. Exports as assignments -/

/-- An assignment to an export.  Without a value of its own, it takes what stands behind it. -/
structure Assignment where
  target : String
  value : Option String
deriving DecidableEq

/-- The text of an assignment. -/
def Assignment.text : Assignment → String
  | ⟨target, some value⟩ => target ++ " = " ++ value ++ ";"
  | ⟨target, none⟩ => target ++ " = "

/-- The export of a declared name. -/
def ownExport (name : String) : Assignment := ⟨"exports." ++ name, some name⟩

/-- The default export. -/
def defaultExport (value : Option String) : Assignment := ⟨"exports.default", value⟩

/-- The export of an entry of a local list: the exported name gets what its own name stands for. -/
def ExportItem.ownAssignment? (source : List Char) : ExportItem → Option Assignment
  | .named _ entity exported _ =>
    some ⟨propertyText source "exports" (exported.getD entity), some (textAt source entity.span)⟩
  | .wholeModule _ _ => none

/-- The export of an entry of another module's list, once a variable has that module. -/
def ExportItem.foreignAssignment (options : RewriteOptions) (source : List Char)
    (module : String) : ExportItem → Assignment
  | .named _ entity exported _ =>
    ⟨propertyText source "exports" (exported.getD entity),
      some (if entity.is "default" then defaultText options module
        else propertyText source module entity)⟩
  | .wholeModule _ exported => ⟨propertyText source "exports" exported, some module⟩

/-! ## §4. The exports of an item -/

/-- The names that an exported declaration exports. -/
def exportNames (n : Node) : List String :=
  match n.kind with
  | .functionDecl _ => (declaredName? n).toList
  | .classDecl _ => (declaredName? n).toList
  | .variables _ => n.children.flatMap boundNames
  | .enumDecl name _ _ => [name]
  | _ => []

/-- Whether what is exported by default means nothing at run time. -/
def isDefaultType (n : Node) : Bool :=
  match n.kind with
  | .interfaceDecl _ => true
  | .functionExpr => !(n.children.any hasBody)
  | _ => false

/-- The exports that have their values when the module begins or where the item stands: functions,
unnamed defaults, names given to entities, and what is another module's. -/
def exportsInFront (options : RewriteOptions) (source : List Char) (items : List Node)
    (module : String) (n : Node) : List Assignment :=
  match n.kind, n.children with
  | .exportDecl, [d] =>
    if isFunctionDecl d && !isTypeOnly d then (exportNames d).map ownExport else []
  | .exportDefaultDecl, [d] =>
    if isDefaultType d then []
    else match d.kind, declaredName? d with
      | .functionExpr, some name => [defaultExport (some name)]
      | _, some _ => []
      | _, none => [defaultExport none]
  | .exportDefaultExpr, [_] => if NamesType items n then [] else [defaultExport none]
  | .importEquals name true false _ _, _ => if NamesType items n then [] else [ownExport name]
  | .exportList ⟨entries, some _, false⟩, _ =>
    (entries.filter fun entry => !entry.isMarked).map (·.foreignAssignment options source module)
  | _, _ => []

/-- The exports that have their values when the item is done: classes, variables and enums. -/
def exportsBehind (n : Node) : List Assignment :=
  match n.kind, n.children with
  | .exportDecl, [d] =>
    if isFunctionDecl d || isTypeOnly d then [] else (exportNames d).map ownExport
  | .exportDefaultDecl, [d] =>
    if isDefaultType d then []
    else match d.kind, declaredName? d with
      | .functionExpr, some _ => []
      | _, some name => [defaultExport (some name)]
      | _, none => []
  | _, _ => []

/-- Whether an entry of a local list is exported: it is not marked as a type, and its name is not
purely a type. -/
def ExportItem.IsValue (items : List Node) (entry : ExportItem) : Prop :=
  entry.isMarked = false ∧ ∀ name ∈ entry.ownName?, ¬IsPureType items name

instance (items : List Node) : DecidablePred (ExportItem.IsValue items) := fun _ =>
  inferInstanceAs (Decidable (_ ∧ _))

/-- The exports that have their values when the module is done: the entries of local lists. -/
def exportsAtEnd (source : List Char) (items : List Node) (n : Node) : List Assignment :=
  match n.kind with
  | .exportList ⟨entries, none, false⟩ =>
    (entries.filter fun entry => entry.IsValue items).filterMap (·.ownAssignment? source)
  | _ => []

/-- What is assigned for an item where it stands. -/
def targetsAt (options : RewriteOptions) (source : List Char) (items : List Node) (n : Node) :
    List String :=
  (exportsInFront options source items "" n ++ exportsBehind n).map Assignment.target

/-- What is assigned for another module's list does not depend on the variable for that module. -/
theorem target_foreignAssignment (options : RewriteOptions) (source : List Char) (module : String)
    (entry : ExportItem) : (entry.foreignAssignment options source module).target
      = (entry.foreignAssignment options source "").target := by
  cases entry <;> rfl

theorem target_exportsInFront (options : RewriteOptions) (source : List Char) (items : List Node)
    (module : String) (n : Node) :
    (exportsInFront options source items module n).map Assignment.target
      = (exportsInFront options source items "" n).map Assignment.target := by
  unfold exportsInFront
  split
  all_goals try rfl
  rw [List.map_map, List.map_map]
  exact List.map_congr_left fun entry _ => target_foreignAssignment options source module entry

/-- **What is assigned for the exports of a module**: item by item, and then for its local lists. -/
def exportTargets (options : RewriteOptions) (source : List Char) (items : List Node) :
    List String :=
  items.flatMap (targetsAt options source items)
    ++ (items.flatMap (exportsAtEnd source items)).map Assignment.target

end SingleFile.Script
