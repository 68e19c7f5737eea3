/-
  SingleFile.Proofs.Script.ErasureLines — LINE FEEDS UNDER ERASURE
  ────────────────────────────────────────────────────────────────
  Blanking fits anywhere, and assignments to declared fields are made of
  names, each of which is a single line.  Only the text of an enum repeats
  strings of the script.

  Main results:
    * `lineFeeds_fieldAssignments` — assignments of names are a single line.
    * `Erases.fits_or_lowers` — an action of an erasure fits, or replaces an
      enum.
-/
import SingleFile.Proofs.Script.EditLines
import SingleFile.Proofs.Script.ErasureForms

namespace SingleFile.Script

open SingleFile.Text

/-! ## §1. Texts and names -/

/-- The number of line feeds in a text. -/
def lineFeeds (s : String) : Nat := s.toList.count '\n'

@[simp] theorem lineFeeds_append (s t : String) :
    lineFeeds (s ++ t) = lineFeeds s + lineFeeds t := by
  rw [lineFeeds, String.toList_append, List.count_append]
  rfl

/-- The names that an import item spells as words. -/
def ImportItem.words : ImportItem → List String
  | .named binding (some (.word name)) _ => [binding.text, name.text]
  | item => [item.binding.text]

/-- The names that a kind of node spells, of whatever it names. -/
def Kind.names : Kind → List String
  | .enumDecl name _ _ => [name]
  | .importDecl decl => decl.items.flatMap ImportItem.words
  | .importEquals name _ _ _ _ => [name]
  | kind => ownNames kind

/-- Whether the names of a kind of node are single lines. -/
def Kind.hasPlainNames (kind : Kind) : Bool := kind.names.all fun name => lineFeeds name == 0

theorem Kind.lineFeeds_of_mem_names {kind : Kind} (h : kind.hasPlainNames = true) {name : String}
    (hname : name ∈ kind.names) : lineFeeds name = 0 := by
  have hall := List.all_eq_true.mp h name hname
  exact beq_iff_eq.mp hall

/-- Whether all names of some trees are single lines. -/
def havePlainNames (nodes : List Node) : Bool :=
  (subtreesOf nodes).all fun n => n.kind.hasPlainNames

theorem havePlainNames_cons {n : Node} {rest : List Node} :
    havePlainNames (n :: rest) = true ↔
      n.kind.hasPlainNames = true ∧ havePlainNames n.children = true ∧
        havePlainNames rest = true := by
  cases n with
  | mk kind span children =>
    simp only [havePlainNames, subtreesOf, subtrees, List.cons_append, List.all_cons,
      List.all_append, Bool.and_eq_true, Node.kind, Node.children]

theorem havePlainNames_iff {nodes : List Node} :
    havePlainNames nodes = true ↔
      ∀ n ∈ nodes, n.kind.hasPlainNames = true ∧ havePlainNames n.children = true := by
  induction nodes with
  | nil => exact ⟨fun _ n hn => absurd hn (by simp), fun _ => rfl⟩
  | cons n rest ih =>
    rw [havePlainNames_cons, ih, List.forall_mem_cons, and_assoc]

theorem havePlainNames_of_subset {nodes more : List Node}
    (hsub : subtreesOf nodes ⊆ subtreesOf more) (h : havePlainNames more = true) :
    havePlainNames nodes = true :=
  List.all_eq_true.mpr fun n hn => List.all_eq_true.mp h n (hsub hn)

/-! ## §2. Assignments to fields -/

/-- The name of a declared field is a single line. -/
theorem lineFeeds_fieldName? {parts : List Node} {name : String}
    (hplain : havePlainNames parts = true) (h : fieldName? parts = some name) :
    lineFeeds name = 0 := by
  rw [havePlainNames_iff] at hplain
  unfold fieldName? at h
  -- The last part binds the name itself, or through a pattern with a default.
  split at h
  · next hlast =>
    obtain rfl := Option.some.inj h
    have hown := (hplain _ (List.mem_of_getLast? hlast)).1
    exact Kind.lineFeeds_of_mem_names hown (List.mem_singleton.mpr rfl)
  · next hlast =>
    obtain rfl := Option.some.inj h
    have hbelow := (hplain _ (List.mem_of_getLast? hlast)).2
    have hown := (havePlainNames_cons.mp hbelow).1
    exact Kind.lineFeeds_of_mem_names hown (List.mem_singleton.mpr rfl)
  · simp at h

/-- **Assignments of names are a single line.** -/
theorem lineFeeds_fieldAssignments {nodes : List Node} (h : havePlainNames nodes = true) :
    lineFeeds (fieldAssignments nodes) = 0 := by
  induction nodes with
  | nil => rfl
  | cons n rest ih =>
    obtain ⟨-, hparts, hrest⟩ := havePlainNames_cons.mp h
    have hrest := ih hrest
    unfold fieldAssignments
    split
    · rfl
    · next heq =>
      obtain ⟨rfl, rfl⟩ := List.cons.inj heq
      rw [lineFeeds_append, hrest]
      -- The name stands twice in its assignment, and it is a single line.
      split
      · next name hname =>
        have hname := lineFeeds_fieldName? hparts hname
        simp only [lineFeeds] at hname
        simp [lineFeeds, hname]
      · rfl
    · next heq =>
      obtain ⟨rfl, rfl⟩ := List.cons.inj heq
      exact hrest

/-! ## §3. Actions -/

/-- **An action of an erasure fits, or replaces an enum.** -/
theorem Erases.fits_or_lowers {source : List Char} {nodes : List Node} {a : Action}
    (h : Erases source nodes a) (hplain : havePlainNames nodes = true) :
    a.Fits source ∨ ∃ n ∈ subtreesOf nodes, a ∈ replaceEnum source n := by
  cases h with
  | blank start stop => exact Or.inl trivial
  | look offset => exact Or.inl trivial
  | refuse construct offset => exact Or.inl trivial
  | enum hn ha => exact Or.inr ⟨_, hn, ha⟩
  | assign hn ha =>
    have hbelow := subtreesOf_children_of_mem_subtreesOf nodes hn
    have htext := lineFeeds_fieldAssignments (havePlainNames_of_subset hbelow hplain)
    obtain ⟨body, -, ha⟩ := List.mem_flatMap.mp ha
    left
    obtain ⟨offset, rfl⟩ | ⟨offset, separator, hseparator, rfl⟩ := mem_insertAssignments ha
    · trivial
    · show lineFeeds _ = 0
      rw [lineFeeds_append, htext]
      rcases hseparator with rfl | rfl <;> rfl

end SingleFile.Script
