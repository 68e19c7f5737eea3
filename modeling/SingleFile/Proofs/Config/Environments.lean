/-
  SingleFile.Proofs.Config.Environments — SECTIONS FOR ENVIRONMENTS
  ─────────────────────────────────────────────────────────────────
  A configuration may hold a section for an environment, which may hold one
  itself, and so on.  The entries of the sections come behind those of the
  configuration, the innermost section last, and the first entry of a short
  name is the one that counts.  So a section adds what is not there, but
  what is there it does not replace: an entry hides those further in.

  Main results:
    * `lookup?_resolved` — the entry that counts is the outermost one.
    * `resolved_overrides_iff` — when it is the innermost one as well.
-/
import Mathlib.Data.List.Basic
import SingleFile.Config.Transpiler

namespace SingleFile.Config

/-- What an entry is listed as. -/
inductive Role where
  | preset
  | plugin
deriving DecidableEq, Repr

namespace Transpiler

/-! ## §1. Sections -/

/-- The entries of a role. -/
def entries (role : Role) (c : Transpiler) : List Entry :=
  match role with
  | .preset => c.presets
  | .plugin => c.plugins

/-- The first entry of a role with a short name. -/
def lookup? (role : Role) (short : String) (c : Transpiler) : Option Entry :=
  match role with
  | .preset => c.preset? short
  | .plugin => c.plugin? short

theorem lookup?_eq (role : Role) (short : String) (c : Transpiler) :
    c.lookup? role short = (c.entries role).find? fun e => e.shortName? == some short := by
  cases role <;> rfl

mutual

/-- The section of an environment, the section in that one, and so on; the outermost first. -/
def sections (environment : String) : Transpiler → List Transpiler
  | mk _ _ environments => sectionsAmong environment environments

/-- The first of some sections that is an environment's, and the sections in it. -/
def sectionsAmong (environment : String) : List (String × Transpiler) → List Transpiler
  | [] => []
  | (name, c) :: rest =>
    if name == environment then c :: sections environment c else sectionsAmong environment rest

end

mutual

/-- A configuration without the sections of other environments, however deep they stand. -/
def only (environment : String) : Transpiler → Transpiler
  | mk presets plugins environments => mk presets plugins (onlyAmong environment environments)

/-- The first of some sections that is an environment's, without those of others in it. -/
def onlyAmong (environment : String) : List (String × Transpiler) → List (String × Transpiler)
  | [] => []
  | (name, c) :: rest =>
    if name == environment then [(name, only environment c)] else onlyAmong environment rest

end

/-! ## §2. The entry that counts -/

theorem entries_resolved_mk (role : Role) (environment : String) (presets plugins : List Entry)
    (environments : List (String × Transpiler)) :
    (resolved environment (mk presets plugins environments)).entries role
      = (mk presets plugins environments).entries role
        ++ ((resolvedSection environment environments).map (entries role)).getD [] := by
  rw [resolved]
  cases resolvedSection environment environments <;> cases role <;>
    simp [entries, Transpiler.presets, Transpiler.plugins]

mutual

/-- **The entries come from the outside in**: those of the configuration, then those of its
sections. -/
theorem entries_resolved (role : Role) (environment : String) : ∀ c : Transpiler,
    (resolved environment c).entries role
      = (c :: sections environment c).flatMap (entries role)
  | mk presets plugins environments => by
    rw [entries_resolved_mk, entries_resolvedSection role environment environments, sections,
      List.flatMap_cons]

theorem entries_resolvedSection (role : Role) (environment : String) :
    ∀ environments : List (String × Transpiler),
      ((resolvedSection environment environments).map (entries role)).getD []
        = (sectionsAmong environment environments).flatMap (entries role)
  | [] => rfl
  | (name, c) :: rest => by
    rw [resolvedSection, sectionsAmong]
    cases name == environment with
    | true => exact entries_resolved role environment c
    | false => exact entries_resolvedSection role environment rest

end

/-- **The entry that counts is the outermost one.** -/
theorem lookup?_resolved (role : Role) (environment short : String) (c : Transpiler) :
    (resolved environment c).lookup? role short
      = (c :: sections environment c).findSome? (lookup? role short) := by
  rw [lookup?_eq, entries_resolved, List.find?_flatMap]
  exact congrArg (List.findSome? · _) (funext fun s => (lookup?_eq role short s).symm)

mutual

/-- Sections of other environments do not matter. -/
theorem resolved_only (environment : String) : ∀ c : Transpiler,
    resolved environment (only environment c) = resolved environment c
  | mk presets plugins environments => by
    rw [only, resolved, resolved, resolvedSection_onlyAmong environment environments]

theorem resolvedSection_onlyAmong (environment : String) :
    ∀ environments : List (String × Transpiler),
      resolvedSection environment (onlyAmong environment environments)
        = resolvedSection environment environments
  | [] => rfl
  | (name, c) :: rest => by
    rw [onlyAmong, resolvedSection]
    cases hname : name == environment with
    | true =>
      rw [if_pos rfl, resolvedSection, hname, resolved_only environment c]
      rfl
    | false => exact resolvedSection_onlyAmong environment rest

end

/-! ## §3. Sections that override -/

/-- Whether sections override the configuration they stand in: the entry that counts is the
innermost section's that has one, and that of the configuration if no section has one. -/
structure SectionsOverride (role : Role) (environment short : String) (c : Transpiler) : Prop where
  innermost : ∀ e, (sections environment c).reverse.findSome? (lookup? role short) = some e →
    (resolved environment c).lookup? role short = some e
  base : (∀ s ∈ sections environment c, s.lookup? role short = none) →
    (resolved environment c).lookup? role short = c.lookup? role short

/-- Whether, of some configurations from the outside in, the outermost and the innermost with an
entry have different ones. -/
def Hides (role : Role) (short : String) (layers : List Transpiler) : Prop :=
  ∃ front outer between inner behind e e',
    layers = front ++ outer :: between ++ inner :: behind ∧
      (∀ s ∈ front, s.lookup? role short = none) ∧ outer.lookup? role short = some e ∧
      inner.lookup? role short = some e' ∧ (∀ s ∈ behind, s.lookup? role short = none) ∧ e ≠ e'

/-- An entry hides another one exactly if the search from the outside and the search from the inside
find different ones. -/
theorem hides_iff (role : Role) (short : String) (layers : List Transpiler) :
    Hides role short layers ↔ ∃ e e', layers.findSome? (lookup? role short) = some e ∧
      layers.reverse.findSome? (lookup? role short) = some e' ∧ e ≠ e' := by
  constructor
  · rintro ⟨front, outer, between, inner, behind, e, e', rfl, hfront, houter, hinner, hbehind, hne⟩
    refine ⟨e, e', ?_, ?_, hne⟩
    · rw [List.findSome?_eq_some_iff]
      exact ⟨front, outer, between ++ inner :: behind, by simp, houter, hfront⟩
    · rw [List.findSome?_eq_some_iff]
      exact ⟨behind.reverse, inner, between.reverse ++ outer :: front.reverse, by simp, hinner,
        fun s hs => hbehind s (List.mem_reverse.mp hs)⟩
  · rintro ⟨e, e', hfirst, hlast, hne⟩
    obtain ⟨front, outer, rest, rfl, houter, hfront⟩ := List.findSome?_eq_some_iff.mp hfirst
    rw [List.reverse_append, List.reverse_cons, List.append_assoc, List.findSome?_append,
      Option.or_eq_some_iff] at hlast
    -- From the inside the search either stops behind the outermost entry, or comes to it.
    rcases hlast with hrest | ⟨-, hlast⟩
    · obtain ⟨after, inner, before, hreverse, hinner, hafter⟩ :=
        List.findSome?_eq_some_iff.mp hrest
      have hrest : rest = before.reverse ++ inner :: after.reverse := by
        rw [← List.reverse_reverse rest, hreverse]
        simp
      exact ⟨front, outer, before.reverse, inner, after.reverse, e, e', by rw [hrest]; simp,
        hfront, houter, hinner, fun s hs => hafter s (List.mem_reverse.mp hs), hne⟩
    · rw [List.singleton_append, List.findSome?_cons, houter] at hlast
      exact absurd (Option.some.inj hlast) hne

/-- The search from the inside goes through the sections first. -/
theorem findSome?_reverse_sections (role : Role) (environment short : String) (c : Transpiler) :
    (c :: sections environment c).reverse.findSome? (lookup? role short)
      = ((sections environment c).reverse.findSome? (lookup? role short)).or
        (c.lookup? role short) := by
  rw [List.reverse_cons, List.findSome?_append]
  cases hc : c.lookup? role short <;> simp [hc]

/-- Sections override exactly if the search from the inside finds the entry that counts. -/
theorem sectionsOverride_iff (role : Role) (environment short : String) (c : Transpiler) :
    SectionsOverride role environment short c ↔
      (resolved environment c).lookup? role short
        = (c :: sections environment c).reverse.findSome? (lookup? role short) := by
  rw [findSome?_reverse_sections]
  constructor
  · intro hoverride
    cases hinner : (sections environment c).reverse.findSome? (lookup? role short) with
    | some e => exact hoverride.innermost e hinner
    | none =>
      rw [Option.none_or]
      apply hoverride.base
      intro s hs
      exact List.findSome?_eq_none_iff.mp hinner s (List.mem_reverse.mpr hs)
  · intro hcounts
    refine ⟨fun e hinner => ?_, fun hnone => ?_⟩
    · rw [hcounts, hinner, Option.some_or]
    · have hinner : (sections environment c).reverse.findSome? (lookup? role short) = none := by
        rw [List.findSome?_eq_none_iff]
        exact fun s hs => hnone s (List.mem_reverse.mp hs)
      rw [hcounts, hinner, Option.none_or]

/-- No entry hides another one exactly if both searches find the same, if anything. -/
theorem not_hides_iff (role : Role) (short : String) (layers : List Transpiler) :
    ¬Hides role short layers ↔
      layers.findSome? (lookup? role short) = layers.reverse.findSome? (lookup? role short) := by
  rw [hides_iff]
  constructor
  · intro hshown
    cases hlast : layers.reverse.findSome? (lookup? role short) with
    | none =>
      rw [List.findSome?_eq_none_iff] at hlast ⊢
      exact fun s hs => hlast s (List.mem_reverse.mpr hs)
    | some e' =>
      obtain ⟨s, hs, hentry⟩ := List.exists_of_findSome?_eq_some hlast
      cases hfirst : layers.findSome? (lookup? role short) with
      | none =>
        have hnone := List.findSome?_eq_none_iff.mp hfirst s (List.mem_reverse.mp hs)
        cases hentry.symm.trans hnone
      | some e =>
        by_contra hne
        exact hshown ⟨e, e', hfirst, hlast, fun heq => hne (congrArg some heq)⟩
  · rintro hsame ⟨e, e', hfirst, hlast, hne⟩
    rw [hfirst, hlast] at hsame
    exact hne (Option.some.inj hsame)

/-- **When sections override**: exactly if no entry hides another one further in.  Sections of other
environments never matter. -/
theorem resolved_overrides_iff (role : Role) (environment short : String) (c : Transpiler) :
    (SectionsOverride role environment short c ↔
        ¬Hides role short (c :: sections environment c)) ∧
      ∀ other : Transpiler, only environment other = only environment c →
        (resolved environment other).lookup? role short
          = (resolved environment c).lookup? role short := by
  constructor
  · rw [sectionsOverride_iff, not_hides_iff, lookup?_resolved]
  · intro other hother
    rw [← resolved_only environment other, hother, resolved_only environment c]

/-! ## §4. A hidden section -/

/-- A configuration with a preset, for which a section has options. -/
def hiddenSection : Transpiler :=
  mk [.named "env"] []
    [("test", mk [.configured [.string "env", .object [("modules", .bool false)]]] [] [])]

/-- **A section is hidden** by the configuration it stands in: the options that it has for a preset
of the configuration do not count. -/
theorem resolved_hiddenSection :
    (resolved "test" hiddenSection).preset? "env" = some (.named "env") ∧
      ¬SectionsOverride .preset "test" "env" hiddenSection := by
  have hcounts : (resolved "test" hiddenSection).preset? "env" = some (.named "env") := rfl
  refine ⟨hcounts, fun hoverride => ?_⟩
  have hinner := hoverride.innermost
    (.configured [.string "env", .object [("modules", .bool false)]]) rfl
  exact absurd (hcounts.symm.trans hinner) (by simp)

end Transpiler

end SingleFile.Config
