/-
  SingleFile.Proofs.LineMap.Lookups — LOOKING LINES UP
  ────────────────────────────────────────────────────
  A finished map holds its mappings by generated line, so if no generated
  line is mapped twice a search by halves finds the one mapping of a line, and
  the first mapping to an original line is the one of the least generated
  line.  Neither depends on the order in which the mappings were added.

  Sources are numbered in the order they are added; each keeps the text that
  was last given to its number.

  Main results:
    * `build_increasing` — the mappings of a finished map, by generated line.
    * `originalLine?_eq_some_iff`, `generatedLine?_eq_some_iff` — what the
      two lookups find.
    * `mappings_eq_of_perm` — the order of the calls has no part in it.
    * `getElem?_sources_foldl_perform` — what calls do to a source.
    * `ofCalls_looksUp` — all of it, for whatever calls have built a map.
-/
import Mathlib.Order.Bounds.Basic
import SingleFile.Proofs.LineMap.Mappings
import SingleFile.Proofs.Ordered

namespace SingleFile.LineMap

/-! ## §1. Mappings of distinct lines -/

/-- Calls that map no generated line twice. -/
def MapsLinesOnce (calls : List DraftCall) : Prop :=
  ((addedBy calls).map LineMapping.generated).Nodup

instance (calls : List DraftCall) : Decidable (MapsLinesOnce calls) :=
  inferInstanceAs (Decidable (List.Nodup _))

variable {calls : List DraftCall}

theorem ofCalls_inLineOrder (calls : List DraftCall) :
    InLineOrder (addedBy calls) (ofCalls calls).mappings := by
  have horder := build_inLineOrder (calls.foldl DraftCall.perform LineMapDraft.empty)
  rwa [added_foldl_perform] at horder

theorem mem_mappings_ofCalls {m : LineMapping} :
    m ∈ (ofCalls calls).mappings ↔ m ∈ addedBy calls :=
  (ofCalls_inLineOrder calls).perm.mem_iff

/-- **The mappings of a finished map stand by generated line**, each on a line of its own. -/
theorem build_increasing (h : MapsLinesOnce calls) :
    (ofCalls calls).mappings.Pairwise fun a b => a.generated < b.generated := by
  have horder := ofCalls_inLineOrder calls
  have hdistinct : ((ofCalls calls).mappings.map LineMapping.generated).Nodup :=
    (horder.perm.map _).nodup_iff.mpr h
  have hne := List.pairwise_map.mp hdistinct
  exact (horder.ordered.and hne).imp fun hab => Nat.lt_of_le_of_ne hab.1 hab.2

/-- **The order of the calls has no part in the mappings.** -/
theorem mappings_eq_of_perm {others : List DraftCall} (h : MapsLinesOnce calls)
    (hperm : (addedBy others).Perm (addedBy calls)) :
    (ofCalls others).mappings = (ofCalls calls).mappings := by
  have hothers : MapsLinesOnce others := (hperm.map _).nodup_iff.mpr h
  have hmappings : (ofCalls others).mappings.Perm (ofCalls calls).mappings :=
    ((ofCalls_inLineOrder others).perm.trans hperm).trans (ofCalls_inLineOrder calls).perm.symm
  apply hmappings.eq_of_pairwise _ (build_increasing hothers) (build_increasing h)
  intro a b _ _ hab hba
  exact absurd hab (Nat.lt_asymm hba)

/-! ## §2. The two lookups -/

/-- **The original line of a generated one**: the line it is mapped to. -/
theorem originalLine?_eq_some_iff (h : MapsLinesOnce calls) {generated original : Nat} :
    (ofCalls calls).originalLine? generated = some original ↔
      ∃ source, (⟨generated, original, source⟩ : LineMapping) ∈ addedBy calls := by
  rw [originalLine?, Option.map_eq_some_iff]
  simp only [find?_eq_some_iff_of_ordered LineMapping.generated (build_increasing h),
    mem_mappings_ofCalls, beq_iff_eq, beq_eq_false_iff_ne]
  constructor
  · rintro ⟨m, ⟨hmem, rfl, -⟩, rfl⟩
    exact ⟨m.source, hmem⟩
  · rintro ⟨source, hmem⟩
    exact ⟨_, ⟨hmem, rfl, fun earlier _ hlt => Nat.ne_of_lt hlt⟩, rfl⟩

/-- **The generated line of an original one**: the least of those mapped to it. -/
theorem generatedLine?_eq_some_iff (h : MapsLinesOnce calls) {source original generated : Nat} :
    (ofCalls calls).generatedLine? source original = some generated ↔
      IsLeast {line | (⟨line, original, source⟩ : LineMapping) ∈ addedBy calls} generated := by
  rw [generatedLine?, Option.map_eq_some_iff]
  simp only [find?_eq_some_iff_of_ordered LineMapping.generated (build_increasing h),
    mem_mappings_ofCalls, Bool.and_eq_true, beq_iff_eq]
  constructor
  · rintro ⟨m, ⟨hmem, ⟨rfl, rfl⟩, hnone⟩, rfl⟩
    refine ⟨hmem, fun line hline => ?_⟩
    by_contra hlt
    simpa using hnone _ hline (Nat.lt_of_not_le hlt)
  · rintro ⟨hmem, hleast⟩
    refine ⟨_, ⟨hmem, ⟨rfl, rfl⟩, fun earlier hearlier hlt => ?_⟩, rfl⟩
    by_contra htest
    simp only [Bool.not_eq_false, Bool.and_eq_true, beq_iff_eq] at htest
    obtain ⟨rfl, rfl⟩ := htest
    exact absurd (hleast hearlier) (Nat.not_le_of_lt hlt)

/-- There is no generated line if none is mapped to the original one, whatever lines are mapped. -/
theorem generatedLine?_eq_none_iff {source original : Nat} :
    (ofCalls calls).generatedLine? source original = none ↔
      ∀ line, (⟨line, original, source⟩ : LineMapping) ∉ addedBy calls := by
  rw [generatedLine?, Option.map_eq_none_iff, List.find?_eq_none]
  simp only [mem_mappings_ofCalls, Bool.and_eq_true, beq_iff_eq]
  constructor
  · intro hnone line hmem
    exact hnone _ hmem ⟨rfl, rfl⟩
  · rintro hnone m hmem ⟨rfl, rfl⟩
    exact hnone _ hmem

/-- The original line of a generated one, searched by halves. -/
def searchOriginalLine? (map : LineMap) (generated : Nat) : Option Nat :=
  match bisect (map.mappings.map LineMapping.generated) generated with
  | .found index => map.mappings[index]?.map LineMapping.original
  | .missing _ => none

/-- **A search by halves finds the original line.** -/
theorem originalLine?_eq_search (h : MapsLinesOnce calls) (generated : Nat) :
    (ofCalls calls).originalLine? generated = (ofCalls calls).searchOriginalLine? generated := by
  have hkeys : ((ofCalls calls).mappings.map LineMapping.generated).Pairwise (· < ·) :=
    List.pairwise_map.mpr (build_increasing h)
  unfold searchOriginalLine?
  by_cases hmem : generated ∈ (ofCalls calls).mappings.map LineMapping.generated
  · obtain ⟨index, hindex⟩ := List.mem_iff_getElem?.mp hmem
    rw [bisect_eq_of_getElem? hkeys hindex]
    obtain ⟨m, hm, rfl⟩ := Option.map_eq_some_iff.mp ((List.getElem?_map ..).symm.trans hindex)
    show _ = ((ofCalls calls).mappings[index]?).map LineMapping.original
    rw [hm, Option.map_some, originalLine?_eq_some_iff h]
    exact ⟨m.source, mem_mappings_ofCalls.mp (List.mem_of_getElem? hm)⟩
  · rw [bisect_eq_of_not_mem (hkeys.imp Nat.le_of_lt) hmem, originalLine?, Option.map_eq_none_iff,
      List.find?_eq_none]
    intro m hm htest
    rw [beq_iff_eq] at htest
    exact hmem (List.mem_map.mpr ⟨m, hm, htest⟩)

/-! ## §3. Sources -/

/-- The source that a call adds. -/
def DraftCall.sourceName? : DraftCall → Option String
  | .addSource name => some name
  | _ => none

/-- The sources that some calls add, in the order of their numbers. -/
def sourcesOf (calls : List DraftCall) : List String := calls.filterMap DraftCall.sourceName?

/-- The text that a call gives to a source. -/
def DraftCall.contentFor? (source : Nat) : DraftCall → Option String
  | .setContent number content => if number.toNat = source then some content else none
  | _ => none

/-- The text that some calls give to a source: the last one. -/
def lastContent? (source : Nat) (calls : List DraftCall) : Option String :=
  calls.reverse.findSome? (DraftCall.contentFor? source)

theorem lastContent?_cons (source : Nat) (call : DraftCall) (calls : List DraftCall) :
    lastContent? source (call :: calls)
      = (lastContent? source calls).or (call.contentFor? source) := by
  rw [lastContent?, List.reverse_cons, List.findSome?_append, List.findSome?_singleton]
  rfl

/-- What a call does to a source that is there. -/
theorem getElem?_sources_perform (d : LineMapDraft) (call : DraftCall) {source : Nat}
    (h : source < d.sources.length) :
    (call.perform d).sources[source]? = d.sources[source]?.map fun s =>
      { s with content := (call.contentFor? source).or s.content } := by
  cases call with
  | setFile name => simp [DraftCall.perform, LineMapDraft.setFile, DraftCall.contentFor?]
  | addSource name =>
    show (d.sources ++ _)[source]? = _
    rw [List.getElem?_append_left h]
    simp [DraftCall.contentFor?]
  | setContent number content =>
    show (d.sources.modify number.toNat _)[source]? = _
    rw [List.getElem?_modify]
    by_cases hnumber : number.toNat = source
    · simp [DraftCall.contentFor?, hnumber]
    · simp [DraftCall.contentFor?, hnumber]
  | addLine generated original number =>
    simp [DraftCall.perform, LineMapDraft.addLine, DraftCall.contentFor?]

theorem names_perform (d : LineMapDraft) (call : DraftCall) :
    (call.perform d).sources.map MapSource.name
      = d.sources.map MapSource.name ++ call.sourceName?.toList := by
  cases call with
  | setFile name => exact (List.append_nil _).symm
  | addSource name => exact List.map_append
  | setContent number content =>
    show (d.sources.modify number.toNat _).map MapSource.name = _ ++ []
    rw [List.append_nil]
    apply List.ext_getElem?
    intro i
    rw [List.getElem?_map, List.getElem?_map, List.getElem?_modify]
    cases d.sources[i]? with
    | none => rfl
    | some s =>
      show some (if number.toNat = i then _ else s).name = some s.name
      split <;> rfl
  | addLine generated original number => exact (List.append_nil _).symm

/-- Calls add the sources they name behind those that are there. -/
theorem names_foldl_perform (calls : List DraftCall) (d : LineMapDraft) :
    (calls.foldl DraftCall.perform d).sources.map MapSource.name
      = d.sources.map MapSource.name ++ sourcesOf calls := by
  induction calls generalizing d with
  | nil => exact (List.append_nil _).symm
  | cons call calls ih =>
    rw [List.foldl_cons, ih, names_perform, List.append_assoc, sourcesOf, sourcesOf,
      List.filterMap_cons]
    cases call.sourceName? <;> rfl

theorem length_foldl_perform (calls : List DraftCall) (d : LineMapDraft) :
    (calls.foldl DraftCall.perform d).sources.length
      = d.sources.length + (sourcesOf calls).length := by
  have hnames := congrArg List.length (names_foldl_perform calls d)
  rwa [List.length_append, List.length_map, List.length_map] at hnames

/-- **What calls do to a source that is there**: it has the text they gave it last. -/
theorem getElem?_sources_foldl_perform (calls : List DraftCall) {d : LineMapDraft} {source : Nat}
    (h : source < d.sources.length) :
    (calls.foldl DraftCall.perform d).sources[source]? = d.sources[source]?.map fun s =>
      { s with content := (lastContent? source calls).or s.content } := by
  induction calls generalizing d with
  | nil => exact (Option.map_id' ..).symm
  | cons call calls ih =>
    have hstep := length_foldl_perform [call] d
    rw [List.foldl_cons] at hstep
    rw [List.foldl_cons, ih (by rw [List.foldl_nil] at hstep; omega),
      getElem?_sources_perform d call h, Option.map_map, lastContent?_cons]
    simp only [Option.or_assoc]
    rfl

/-- **The source that a call adds** has the text that was last given to its number afterwards. -/
theorem getElem?_sources_ofCalls (front rest : List DraftCall) (name : String) :
    (ofCalls (front ++ .addSource name :: rest)).sources[(sourcesOf front).length]?
      = some ⟨name, lastContent? (sourcesOf front).length rest⟩ := by
  have hlength := length_foldl_perform front LineMapDraft.empty
  rw [show LineMapDraft.empty.sources.length = 0 from rfl, Nat.zero_add] at hlength
  show ((front ++ .addSource name :: rest).foldl DraftCall.perform LineMapDraft.empty).sources[_]?
    = _
  rw [List.foldl_append, List.foldl_cons]
  have hadded : (DraftCall.perform (front.foldl DraftCall.perform LineMapDraft.empty)
      (.addSource name)).sources
        = (front.foldl DraftCall.perform LineMapDraft.empty).sources ++ [⟨name, none⟩] := rfl
  rw [getElem?_sources_foldl_perform rest (by
      rw [hadded, List.length_append, hlength]
      exact Nat.lt_succ_self _),
    hadded, ← hlength, List.getElem?_concat_length, Option.map_some, Option.or_none]

/-! ## §4. The map that calls have built -/

/-- What a map knows about the lines that are mapped. -/
structure LooksUp (map : LineMap) (mapped : List LineMapping) : Prop where
  /-- A generated line comes from the line it is mapped to. -/
  original_iff : ∀ generated original, map.originalLine? generated = some original ↔
    ∃ source, (⟨generated, original, source⟩ : LineMapping) ∈ mapped
  /-- An original line is found at the least generated line that is mapped to it, -/
  generated_iff : ∀ source original generated,
    map.generatedLine? source original = some generated ↔
      IsLeast {line | (⟨line, original, source⟩ : LineMapping) ∈ mapped} generated
  /-- and nowhere if there is none. -/
  generated_none_iff : ∀ source original, map.generatedLine? source original = none ↔
    ∀ line, (⟨line, original, source⟩ : LineMapping) ∉ mapped
  /-- The lookup of a generated line may be a search by halves. -/
  searched : ∀ generated, map.originalLine? generated = map.searchOriginalLine? generated

/-- What a map knows about the sources that calls have added. -/
structure KeepsSources (map : LineMap) (calls : List DraftCall) : Prop where
  /-- It names them in the order they were added. -/
  names : map.sources.map MapSource.name = sourcesOf calls
  /-- There are as many texts, or places for one, as there are names. -/
  length_contents : (map.sources.map MapSource.content).length = (sourcesOf calls).length
  /-- Each has the text last given to its number, the number of sources added before it. -/
  source : ∀ front name rest, calls = front ++ DraftCall.addSource name :: rest →
    map.sources[(sourcesOf front).length]?
      = some ⟨name, lastContent? (sourcesOf front).length rest⟩

/-- **Lookups agree with the mappings that were added.**  If no generated line is mapped twice, the
map that calls have built looks lines up as the calls have mapped them, the same map comes of the
mappings in any other order, and its sources are those that were added. -/
theorem ofCalls_looksUp (calls : List DraftCall) (h : MapsLinesOnce calls) :
    (ofCalls calls).LooksUp (addedBy calls) ∧
    (∀ others : List DraftCall, (addedBy others).Perm (addedBy calls) →
      (ofCalls others).mappings = (ofCalls calls).mappings ∧
      (ofCalls others).originalLine? = (ofCalls calls).originalLine? ∧
      (ofCalls others).generatedLine? = (ofCalls calls).generatedLine?) ∧
    (ofCalls calls).KeepsSources calls := by
  have hnames : (ofCalls calls).sources.map MapSource.name = sourcesOf calls :=
    names_foldl_perform calls LineMapDraft.empty
  refine ⟨?_, fun others hperm => ?_, ?_⟩
  · exact ⟨fun _ _ => originalLine?_eq_some_iff h, fun _ _ _ => generatedLine?_eq_some_iff h,
      fun _ _ => generatedLine?_eq_none_iff, originalLine?_eq_search h⟩
  · have hsame := mappings_eq_of_perm h hperm
    refine ⟨hsame, ?_, ?_⟩
    · funext generated
      rw [originalLine?, originalLine?, hsame]
    · funext source original
      rw [generatedLine?, generatedLine?, hsame]
  · refine ⟨hnames, ?_, ?_⟩
    · have hlength := congrArg List.length hnames
      rwa [List.length_map] at hlength ⊢
    · rintro front name rest rfl
      exact getElem?_sources_ofCalls front rest name

/-- Lines that are not added in order, two of them from one line, and a source that gets its text
twice. -/
def shuffledCalls : List DraftCall :=
  [.setContent 0 "lost", .addSource "A.vue", .addLine 4 1 0, .setContent 0 "a", .addLine 2 0 0,
    .addSource "B.vue", .addLine 3 1 0, .setContent 0 "b"]

theorem ofCalls_looksUp_shuffledCalls :
    MapsLinesOnce shuffledCalls ∧
    (ofCalls shuffledCalls).originalLine? 4 = some 1 ∧
    (ofCalls shuffledCalls).generatedLine? 0 1 = some 3 ∧
    (ofCalls shuffledCalls).generatedLine? 1 1 = none ∧
    (ofCalls shuffledCalls).sources[0]? = some ⟨"A.vue", some "b"⟩ := by
  have honce : MapsLinesOnce shuffledCalls := by decide
  have hadded : addedBy shuffledCalls = [⟨4, 1, 0⟩, ⟨2, 0, 0⟩, ⟨3, 1, 0⟩] := rfl
  obtain ⟨hlines, -, hsources⟩ := ofCalls_looksUp shuffledCalls honce
  rw [hadded] at hlines
  refine ⟨honce, (hlines.original_iff 4 1).mpr ⟨0, by decide⟩, ?_, ?_, ?_⟩
  · refine (hlines.generated_iff 0 1 3).mpr ⟨by simp, fun line hline => ?_⟩
    have hline : line = 4 ∨ line = 3 := by simpa using hline
    omega
  · exact (hlines.generated_none_iff 1 1).mpr fun line => by simp
  · exact hsources.source [.setContent 0 "lost"] "A.vue" _ rfl

end SingleFile.LineMap
