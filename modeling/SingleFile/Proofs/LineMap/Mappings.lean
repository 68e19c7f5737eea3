/-
  SingleFile.Proofs.LineMap.Mappings — READING MAPPINGS BACK
  ──────────────────────────────────────────────────────────
  The text of a map's mappings carries relative numbers: every field but the
  generated column goes on from the segment before, across lines.  The reader
  here cuts the text at its separators first and then adds the numbers up.

  Main results:
    * `decodeLines?_segment` — one segment is read, whatever follows it on
      its line, and the reading goes on with its fields.  The step.
    * `decodeLines?_encodeBehind` — all segments behind one are read.  The run.
    * `build_inLineOrder` — a finished map holds the added mappings by line,
      those of one line in the order they were added.
    * `encodedMappings_lossless` — the text of a map determines its mappings.
-/
import Mathlib.Data.List.Basic
import SingleFile.LineMap.Basic
import SingleFile.Proofs.LineMap.Vlq

namespace SingleFile.LineMap

open Vlq

/-! ## §1. The reader -/

/-- What a segment says: a place in the generated text and the place it comes from. -/
structure Segment where
  generatedLine : Nat
  generatedColumn : Int
  source : Int
  originalLine : Int
  originalColumn : Int
deriving DecidableEq, Repr

/-- The fields that the next segment is relative to, on whatever line it stands. -/
structure Fields where
  source : Int
  originalLine : Int
  originalColumn : Int
deriving DecidableEq, Repr

/-- The fields of a segment that outlive its line. -/
def Segment.fields (s : Segment) : Fields := ⟨s.source, s.originalLine, s.originalColumn⟩

/-- A segment: four numbers and nothing else. -/
def decodeSegment? (line : Nat) (column : Int) (previous : Fields) (text : List Char) :
    Option Segment := do
  let (generatedColumn, text) ← read? text
  let (source, text) ← read? text
  let (originalLine, text) ← read? text
  let (originalColumn, text) ← read? text
  if text.isEmpty then
    some ⟨line, column + generatedColumn, previous.source + source,
      previous.originalLine + originalLine, previous.originalColumn + originalColumn⟩
  else none

/-- The segments of a line, with the fields that the next line goes on from. -/
def decodeSegments? (line : Nat) : Int → Fields → List (List Char) →
    Option (List Segment × Fields)
  | _, previous, [] => some ([], previous)
  | column, previous, text :: rest => do
    let found ← decodeSegment? line column previous text
    let (later, last) ← decodeSegments? line found.generatedColumn found.fields rest
    return (found :: later, last)

/-- A line: segments with commas between them, or nothing. -/
def decodeLine? (line : Nat) (previous : Fields) (text : List Char) :
    Option (List Segment × Fields) :=
  if text.isEmpty then some ([], previous)
  else decodeSegments? line 0 previous (text.splitOn ',')

/-- The segments of some lines. -/
def decodeLines? : Nat → Fields → List (List Char) → Option (List Segment)
  | _, _, [] => some []
  | line, previous, text :: rest => do
    let (found, last) ← decodeLine? line previous text
    let later ← decodeLines? (line + 1) last rest
    return found ++ later

/-- **Reads the mappings of a source map**: lines end at semicolons, generated columns start
anew on every line, all other fields go on from the segment before. -/
def decodeMappings? (text : List Char) : Option (List Segment) :=
  decodeLines? 0 ⟨0, 0, 0⟩ (text.splitOn ';')

/-! ## §2. Cutting at separators -/

/-- A text in front that holds no separator joins the first piece. -/
theorem splitOn_append_of_not_mem {sep : Char} {front text piece : List Char}
    {pieces : List (List Char)} (hfront : sep ∉ front)
    (htext : text.splitOn sep = piece :: pieces) :
    (front ++ text).splitOn sep = (front ++ piece) :: pieces := by
  induction front with
  | nil => exact htext
  | cons c cs ih =>
    rw [List.mem_cons, not_or] at hfront
    have hc : (c == sep) = false := by
      rw [beq_eq_false_iff_ne]
      exact fun he => hfront.1 he.symm
    rw [List.cons_append, List.splitOn_cons_eq_if_modifyHead, hc, ih hfront.2]
    rfl

/-- Separators in front of a text are so many empty pieces. -/
theorem splitOn_replicate_append (sep : Char) (n : Nat) (text : List Char) :
    (List.replicate n sep ++ text).splitOn sep = List.replicate n [] ++ text.splitOn sep := by
  induction n with
  | zero => rfl
  | succ n ih =>
    rw [List.replicate_succ, List.cons_append, List.splitOn_cons_eq_if_modifyHead, beq_self_eq_true,
        if_pos rfl, ih]
    rfl

/-- Empty lines hold nothing and are counted. -/
theorem decodeLines?_replicate (n line : Nat) (previous : Fields) (rest : List (List Char)) :
    decodeLines? line previous (List.replicate n [] ++ rest)
      = decodeLines? (line + n) previous rest := by
  induction n generalizing line with
  | zero => rfl
  | succ n ih =>
    rw [List.replicate_succ, List.cons_append, decodeLines?]
    show (do
      let later ← decodeLines? (line + 1) previous (List.replicate n [] ++ rest)
      return [] ++ later) = _
    rw [ih, Nat.add_assoc, Nat.add_comm 1 n]
    cases decodeLines? (line + (n + 1)) previous rest <;> rfl

/-! ## §3. One segment -/

/-- The character of a digit separates nothing. -/
theorem digitChar_ne_separator {digit : Nat} (h : digit < 64) :
    digitChar digit ≠ ';' ∧ digitChar digit ≠ ',' := by
  have all : ∀ d : Fin 64, digitChar d ≠ ';' ∧ digitChar d ≠ ',' := by decide +kernel
  exact all ⟨digit, h⟩

/-- A number holds no separator. -/
theorem separator_not_mem_encode (value : Int64) :
    ';' ∉ encode value ∧ ',' ∉ encode value := by
  constructor
  all_goals
    intro h
    obtain ⟨digit, hd, he⟩ := List.mem_map.mp h
    have hne := digitChar_ne_separator (digits_lt _ digit hd)
    simp_all

/-- A segment holds no separator. -/
theorem separator_not_mem_segment (previous m : LineMapping) :
    ';' ∉ segment previous m ∧ ',' ∉ segment previous m := by
  simp only [segment, List.mem_append, not_or]
  exact ⟨⟨⟨⟨(separator_not_mem_encode _).1, (separator_not_mem_encode _).1⟩,
      (separator_not_mem_encode _).1⟩, (separator_not_mem_encode _).1⟩,
    ⟨⟨(separator_not_mem_encode _).2, (separator_not_mem_encode _).2⟩,
      (separator_not_mem_encode _).2⟩, (separator_not_mem_encode _).2⟩

/-- A mapping whose line and source are 32-bit numbers. -/
def Fits (m : LineMapping) : Prop := m.original < 2 ^ 32 ∧ m.source < 2 ^ 32

/-- What the segment of a mapping says: both columns are 0. -/
def Segment.ofMapping (m : LineMapping) : Segment := ⟨m.generated, 0, m.source, m.original, 0⟩

/-- The difference of two 32-bit numbers is read back whatever follows it. -/
theorem read?_difference {a b : Nat} (ha : a < 2 ^ 32) (hb : b < 2 ^ 32) (rest : List Char) :
    read? (encode (Int64.ofInt ((a : Int) - b)) ++ rest) = some ((a : Int) - b, rest) := by
  have hval : (Int64.ofInt ((a : Int) - b)).toInt = (a : Int) - b :=
    Int64.toInt_ofInt_of_le (by omega) (by omega)
  -- Both numbers are below 2^32, so the difference is far from the least number.
  have hmin : Int64.ofInt ((a : Int) - b) ≠ Int64.minValue := by
    intro he
    have hmin := congrArg Int64.toInt he
    rw [hval, show Int64.minValue.toInt = -2 ^ 63 from rfl] at hmin
    omega
  rw [read?_encode hmin, hval]

/-- **The segment of a mapping is read back**, relative to the mapping before it. -/
theorem decodeSegment?_segment {previous m : LineMapping} (hp : Fits previous) (hm : Fits m) :
    decodeSegment? m.generated 0 (Segment.ofMapping previous).fields (segment previous m)
      = some (Segment.ofMapping m) := by
  have hzero : ∀ rest, read? (encode 0 ++ rest) = some (0, rest) :=
    fun rest => read?_encode (by decide) rest
  have hlast : read? (encode 0) = some (0, []) := by
    have h := hzero []
    rwa [List.append_nil] at h
  rw [decodeSegment?, segment, List.append_assoc, List.append_assoc, hzero]
  simp only [Option.bind_eq_bind, Option.bind_some]
  rw [read?_difference hm.2 hp.2]
  simp only [Option.bind_some]
  rw [read?_difference hm.1 hp.1]
  simp only [Option.bind_some]
  rw [hlast]
  simp only [Option.bind_some, List.isEmpty_nil, if_true, Segment.ofMapping, Segment.fields,
    Int.add_zero, Option.some_inj, Segment.mk.injEq, true_and]
  exact ⟨by omega, by omega, trivial⟩

/-! ## §4. One segment after another -/

theorem segment_ne_nil (previous m : LineMapping) : segment previous m ≠ [] := by
  intro h
  simp only [segment, List.append_eq_nil_iff] at h
  have hread := read?_encode (show (0 : Int64) ≠ Int64.minValue by decide) []
  rw [h.2] at hread
  simp [read?, readDigits?] at hread

/-- What is behind a segment on its line: nothing, or a comma and more segments. -/
def EndsSegment (text : List Char) : Prop := text = [] ∨ ∃ rest, rest ≠ [] ∧ text = ',' :: rest

/-- **A segment at the start of a line**: it is read, and the reading of the line goes on with
its fields. -/
theorem decodeLines?_segment {previous m : LineMapping} {behind : List Char}
    {lines : List (List Char)} (hp : Fits previous) (hm : Fits m) (hb : EndsSegment behind) :
    decodeLines? m.generated (Segment.ofMapping previous).fields
        ((segment previous m ++ behind) :: lines)
      = (decodeLines? m.generated (Segment.ofMapping m).fields (behind.tail :: lines)).map
          (Segment.ofMapping m :: ·) := by
  have hline : decodeLine? m.generated (Segment.ofMapping previous).fields
      (segment previous m ++ behind)
      = (decodeLine? m.generated (Segment.ofMapping m).fields behind.tail).map
          fun found => (Segment.ofMapping m :: found.1, found.2) := by
    have hne : (segment previous m ++ behind).isEmpty = false := by
      simp [segment_ne_nil]
    rw [decodeLine?, hne, if_neg (by decide)]
    -- The segment is the whole line, or a comma cuts it off.
    rcases hb with rfl | ⟨rest, hrest, rfl⟩
    · rw [List.append_nil, List.splitOn_eq_singleton (separator_not_mem_segment previous m).2,
          decodeSegments?, decodeSegment?_segment hp hm]
      rfl
    · have hrest : rest.isEmpty = false := by simpa using hrest
      rw [List.splitOn_append_cons_self_of_not_mem (separator_not_mem_segment previous m).2,
          decodeSegments?, decodeSegment?_segment hp hm]
      show _ = (decodeLine? m.generated _ rest).map _
      rw [decodeLine?, hrest, if_neg (by decide)]
      show (decodeSegments? m.generated 0 (Segment.ofMapping m).fields (rest.splitOn ',')).bind _
        = _
      cases decodeSegments? m.generated 0 (Segment.ofMapping m).fields (rest.splitOn ',') <;> rfl
  rw [decodeLines?, decodeLines?, hline]
  cases decodeLine? m.generated (Segment.ofMapping m).fields behind.tail with
  | none => rfl
  | some found =>
    show (decodeLines? (m.generated + 1) found.2 lines).bind _
      = ((decodeLines? (m.generated + 1) found.2 lines).bind _).map _
    cases decodeLines? (m.generated + 1) found.2 lines <;> rfl

/-- **All segments behind one of a line**, in the order of their lines. -/
theorem decodeLines?_encodeBehind (previous : LineMapping) (rest : List LineMapping)
    (hfits : ∀ m ∈ previous :: rest, Fits m)
    (hsorted : (previous :: rest).Pairwise fun a b => a.generated ≤ b.generated) :
    ∃ text lines, (encodeBehind previous rest).splitOn ';' = text :: lines ∧ EndsSegment text ∧
      decodeLines? previous.generated (Segment.ofMapping previous).fields (text.tail :: lines)
        = some (rest.map Segment.ofMapping) := by
  induction rest generalizing previous with
  | nil => exact ⟨[], [], rfl, Or.inl rfl, rfl⟩
  | cons m rest ih =>
    obtain ⟨hle, hsorted⟩ := List.pairwise_cons.mp hsorted
    have hfirst := hfits previous (List.mem_cons_self ..)
    have hfits : ∀ n ∈ m :: rest, Fits n := fun n hn => hfits n (List.mem_cons_of_mem _ hn)
    have hle := hle m (List.mem_cons_self ..)
    obtain ⟨text, lines, hsplit, hends, hdecode⟩ := ih m hfits hsorted
    -- The next segment stands in front of the first piece of what is behind it.
    have hsegment : (segment previous m ++ encodeBehind m rest).splitOn ';'
        = (segment previous m ++ text) :: lines :=
      splitOn_append_of_not_mem (separator_not_mem_segment previous m).1 hsplit
    have hread : decodeLines? m.generated (Segment.ofMapping previous).fields
        ((segment previous m ++ text) :: lines) = some ((m :: rest).map Segment.ofMapping) := by
      rw [decodeLines?_segment hfirst (hfits m (List.mem_cons_self ..)) hends, hdecode]
      rfl
    rw [encodeBehind, List.append_assoc]
    by_cases hpassed : m.generated - previous.generated = 0
    · -- On the line of the mapping before: a comma stands between the two.
      have hline : previous.generated = m.generated := by omega
      rw [if_pos hpassed, hline]
      refine ⟨',' :: (segment previous m ++ text), lines, ?_, Or.inr ⟨_, ?_, rfl⟩, hread⟩
      · exact splitOn_append_of_not_mem (by simp) hsegment
      · simp [segment_ne_nil]
    · -- On a later line: one piece ends at each line passed, all but the first one empty.
      obtain ⟨n, hn⟩ := Nat.exists_eq_succ_of_ne_zero hpassed
      rw [if_neg hpassed, hn]
      refine ⟨[], List.replicate n [] ++ (segment previous m ++ text) :: lines, ?_, Or.inl rfl, ?_⟩
      · rw [splitOn_replicate_append, hsegment]
        rfl
      · have hline : previous.generated + (n + 1) = m.generated := by omega
        show decodeLines? _ _ (List.replicate (n + 1) [] ++ _) = _
        rw [decodeLines?_replicate, hline]
        exact hread

/-- **The mappings of a map are read back**, in their order. -/
theorem decodeMappings?_encodedMappings (map : LineMap) (hfits : ∀ m ∈ map.mappings, Fits m)
    (hsorted : map.mappings.Pairwise fun a b => a.generated ≤ b.generated) :
    decodeMappings? map.encodedMappings = some (map.mappings.map Segment.ofMapping) := by
  rw [decodeMappings?, encodedMappings]
  cases hm : map.mappings with
  | nil => rfl
  | cons first rest =>
    rw [hm] at hfits hsorted
    have hfirst := hfits first (List.mem_cons_self ..)
    obtain ⟨text, lines, hsplit, hends, hdecode⟩ :=
      decodeLines?_encodeBehind first rest hfits hsorted
    have hsegment := splitOn_append_of_not_mem (separator_not_mem_segment ⟨0, 0, 0⟩ first).1 hsplit
    -- The first segment is relative to the zeros the reader starts from.
    have hstart : Fits ⟨0, 0, 0⟩ := ⟨by decide, by decide⟩
    show decodeLines? 0 _ ((List.replicate first.generated ';' ++ segment ⟨0, 0, 0⟩ first
      ++ encodeBehind first rest).splitOn ';') = _
    rw [List.append_assoc, splitOn_replicate_append, hsegment, decodeLines?_replicate, Nat.zero_add]
    show decodeLines? first.generated (Segment.ofMapping ⟨0, 0, 0⟩).fields _ = _
    rw [decodeLines?_segment hstart hfirst hends, hdecode]
    rfl

/-! ## §5. Building a map -/

/-- A call that adds to a map; lines and sources are 32-bit numbers. -/
inductive DraftCall where
  | setFile (name : String)
  | addSource (name : String)
  | setContent (source : UInt32) (content : String)
  | addLine (generated original source : UInt32)
deriving DecidableEq, Repr

/-- What a call does to a map that is being built. -/
def DraftCall.perform (d : LineMapDraft) : DraftCall → LineMapDraft
  | .setFile name => d.setFile name
  | .addSource name => d.addSource name
  | .setContent source content => d.setContent source.toNat content
  | .addLine generated original source => d.addLine generated.toNat original.toNat source.toNat

/-- The mapping that a call adds. -/
def DraftCall.mapping? : DraftCall → Option LineMapping
  | .addLine generated original source => some ⟨generated.toNat, original.toNat, source.toNat⟩
  | _ => none

/-- The finished map of some calls. -/
def ofCalls (calls : List DraftCall) : LineMap :=
  (calls.foldl DraftCall.perform LineMapDraft.empty).build

/-- The mappings that some calls add, in the order of the calls. -/
def addedBy (calls : List DraftCall) : List LineMapping := calls.filterMap DraftCall.mapping?

/-- The mappings of `added` by their generated lines, those of one line in the order they have
there. -/
structure InLineOrder (added sorted : List LineMapping) : Prop where
  perm : sorted.Perm added
  ordered : sorted.Pairwise fun a b => a.generated ≤ b.generated
  stable : ∀ line, sorted.filter (·.generated == line) = added.filter (·.generated == line)

/-- Calls add their mappings to those a map has already. -/
theorem added_foldl_perform (calls : List DraftCall) (d : LineMapDraft) :
    (calls.foldl DraftCall.perform d).added = d.added ++ addedBy calls := by
  induction calls generalizing d with
  | nil => exact (List.append_nil _).symm
  | cons call calls ih =>
    rw [List.foldl_cons, ih, addedBy, addedBy]
    cases call with
    | addLine generated original source => exact List.append_assoc ..
    | setFile _ => rfl
    | addSource _ => rfl
    | setContent _ _ => rfl

/-- **A finished map holds the added mappings in the order of their lines**, and keeps the order
of those on one line. -/
theorem build_inLineOrder (d : LineMapDraft) : InLineOrder d.added d.build.mappings := by
  have hperm : d.build.mappings.Perm d.added := List.mergeSort_perm ..
  have htrans : ∀ a b c : LineMapping, LineMapDraft.comesBefore a b = true →
      LineMapDraft.comesBefore b c = true → LineMapDraft.comesBefore a c = true := by
    intro a b c hab hbc
    simp only [LineMapDraft.comesBefore, decide_eq_true_eq] at hab hbc ⊢
    omega
  have htotal : ∀ a b : LineMapping,
      (LineMapDraft.comesBefore a b || LineMapDraft.comesBefore b a) = true := by
    intro a b
    simp only [LineMapDraft.comesBefore, Bool.or_eq_true, decide_eq_true_eq]
    omega
  refine ⟨hperm, ?_, fun line => ?_⟩
  · refine (List.pairwise_mergeSort htrans htotal d.added).imp fun h => ?_
    simpa [LineMapDraft.comesBefore] using h
  · -- The mappings of one line are a sorted sublist, and sorting keeps such a list in order.
    have hsame : (d.added.filter (·.generated == line)).Pairwise
        fun a b => LineMapDraft.comesBefore a b = true := by
      refine List.pairwise_iff_forall_sublist.mpr fun {a b} hab => ?_
      have ha := (List.mem_filter.mp (hab.subset (List.mem_cons_self ..))).2
      have hb := (List.mem_filter.mp
        (hab.subset (List.mem_cons_of_mem _ (List.mem_cons_self ..)))).2
      simp only [beq_iff_eq] at ha hb
      simp only [LineMapDraft.comesBefore, decide_eq_true_eq]
      omega
    have hsub : (d.added.filter (·.generated == line)).Sublist d.build.mappings :=
      List.sublist_mergeSort htrans htotal hsame List.filter_sublist
    have hsub := hsub.filter (·.generated == line)
    simp only [List.filter_filter, Bool.and_self] at hsub
    exact (hsub.eq_of_length (hperm.filter _).length_eq.symm).symm

/-- A mapping that a call adds has 32-bit fields. -/
theorem fits_of_mem_addedBy {calls : List DraftCall} {m : LineMapping} (h : m ∈ addedBy calls) :
    Fits m := by
  obtain ⟨call, -, hm⟩ := List.mem_filterMap.mp h
  cases call with
  | addLine generated original source =>
    obtain rfl := Option.some.inj hm
    exact ⟨original.toNat_lt, source.toNat_lt⟩
  | setFile _ => exact absurd hm (by simp [DraftCall.mapping?])
  | addSource _ => exact absurd hm (by simp [DraftCall.mapping?])
  | setContent _ _ => exact absurd hm (by simp [DraftCall.mapping?])

/-- Mappings that say the same are the same. -/
theorem ofMapping_injective : Function.Injective Segment.ofMapping := by
  intro a b h
  simp only [Segment.ofMapping, Segment.mk.injEq, Int.natCast_inj, true_and, and_true] at h
  rw [LineMapping.mk.injEq]
  exact ⟨h.1, h.2.2, h.2.1⟩

/-- The mappings of a map that calls have built are read back. -/
theorem decodeMappings?_ofCalls (calls : List DraftCall) :
    decodeMappings? (ofCalls calls).encodedMappings
      = some ((ofCalls calls).mappings.map Segment.ofMapping) := by
  have horder := build_inLineOrder (calls.foldl DraftCall.perform LineMapDraft.empty)
  refine decodeMappings?_encodedMappings _ (fun m hm => ?_) horder.ordered
  have hadded := horder.perm.subset hm
  rw [added_foldl_perform] at hadded
  exact fits_of_mem_addedBy hadded

/-- **The text of a map loses nothing.**  Whatever calls have built a map, it holds the mappings
they added by generated line, in a stable order; its text is read back as these very mappings,
with both columns 0; and a map with the same text has the same mappings. -/
theorem encodedMappings_lossless (calls : List DraftCall) :
    InLineOrder (addedBy calls) (ofCalls calls).mappings ∧
    decodeMappings? (ofCalls calls).encodedMappings
      = some ((ofCalls calls).mappings.map Segment.ofMapping) ∧
    ∀ others : List DraftCall, (ofCalls others).mappings ≠ (ofCalls calls).mappings →
      (ofCalls others).encodedMappings ≠ (ofCalls calls).encodedMappings := by
  refine ⟨?_, decodeMappings?_ofCalls calls, fun others hne htext => ?_⟩
  · have horder := build_inLineOrder (calls.foldl DraftCall.perform LineMapDraft.empty)
    rwa [added_foldl_perform] at horder
  · have hsame : some ((ofCalls others).mappings.map Segment.ofMapping)
        = some ((ofCalls calls).mappings.map Segment.ofMapping) := by
      rw [← decodeMappings?_ofCalls others, ← decodeMappings?_ofCalls calls, htext]
    exact hne (List.map_injective_iff.mpr ofMapping_injective (Option.some.inj hsame))

/-- Two mappings of one line, added behind one of a later line. -/
example :
    (ofCalls [.addSource "A.vue", .addLine 2 7 0, .addLine 1 3 0, .addLine 1 0 0]).encodedMappings
      = ";AAGA,AAHA;AAOA".toList := by
  cbv

end SingleFile.LineMap
