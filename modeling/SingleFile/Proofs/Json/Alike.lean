/-
  SingleFile.Proofs.Json.Alike — THE SAME BUT FOR HOW NUMBERS ARE HELD
  ────────────────────────────────────────────────────────────────────
  One and the same number can be an integer in one value and a double in
  another.  Two terms are alike if they differ in nothing else.  A decoder
  that does not look into numbers makes alike data of alike terms, however
  many containers may be nested beyond those that are.

  Main results:
    * `Term.Alike.depth_eq`, `value?_alike` — what alike terms have in common.
    * `Agree` with `agree_value`, `agree_list` and `recordFields?_alike` —
      decoders that do not look into numbers.
-/
import Mathlib.Algebra.Field.Rat
import Mathlib.Data.List.Forall2
import SingleFile.Proofs.Json.Values

namespace SingleFile.Json

open SingleFile.Number List

/-! ## §1. Numbers -/

/-- The rational number that a number is; none if it is not finite. -/
def Number.rational? : Number → Option ℚ
  | .integer n => some n
  | .real (.finite negative m e) => some ((if negative then -1 else 1) * m * 2 ^ e)
  | .real _ => none

/-- **Whether two numbers are the same.** -/
def Number.IsEqual (a b : Number) : Prop := ∃ q, a.rational? = some q ∧ b.rational? = some q

/-! ## §2. Terms and values -/

/-- Whether two members have the same key, and what is under it is related. -/
inductive NamedAlike {Key α : Type} (alike : α → α → Prop) : Key × α → Key × α → Prop where
  | mk (key : Key) {a b : α} (h : alike a b) : NamedAlike alike (key, a) (key, b)

/-- **Whether two terms are the same but for how numbers are held.** -/
inductive Term.Alike : Term → Term → Prop where
  | null : Alike .null .null
  | bool (b : Bool) : Alike (.bool b) (.bool b)
  | number {a b : Number} (h : a.IsEqual b) : Alike (.number (some a)) (.number (some b))
  | string (s : Option String) : Alike (.string s) (.string s)
  | array {ts ts' : List Term} (h : Forall₂ Alike ts ts') : Alike (.array ts) (.array ts')
  | object {ms ms' : List (Option String × Term)} (h : Forall₂ (NamedAlike Alike) ms ms') :
    Alike (.object ms) (.object ms')

/-- Whether two values are the same but for how numbers are held. -/
inductive Value.Alike : Value → Value → Prop where
  | null : Alike .null .null
  | bool (b : Bool) : Alike (.bool b) (.bool b)
  | number {a b : Number} (h : a.IsEqual b) : Alike (.number a) (.number b)
  | string (s : String) : Alike (.string s) (.string s)
  | array {vs vs' : List Value} (h : Forall₂ Alike vs vs') : Alike (.array vs) (.array vs')
  | object {ms ms' : List (String × Value)} (h : Forall₂ (NamedAlike Alike) ms ms') :
    Alike (.object ms) (.object ms')

/-! ## §3. Depth -/

mutual

/-- Alike terms are nested to the same depth. -/
theorem Term.Alike.depth_eq : ∀ (t t' : Term), t.Alike t' → t.depth = t'.depth
  | _, _, .null => rfl
  | _, _, .bool _ => rfl
  | _, _, .number _ => rfl
  | _, _, .string _ => rfl
  | .array ts, .array ts', .array h => by
    rw [Term.depth, Term.depth, depthOf_eq_of_alike ts ts' h]
  | .object ms, .object ms', .object h => by
    rw [Term.depth, Term.depth, depthOfMembers_eq_of_alike ms ms' h]

theorem depthOf_eq_of_alike : ∀ (ts ts' : List Term), Forall₂ Term.Alike ts ts' →
    depthOf ts = depthOf ts'
  | [], [], .nil => rfl
  | t :: ts, t' :: ts', .cons h hrest => by
    rw [depthOf, depthOf, Term.Alike.depth_eq t t' h, depthOf_eq_of_alike ts ts' hrest]

theorem depthOfMembers_eq_of_alike : ∀ (ms ms' : List (Option String × Term)),
    Forall₂ (NamedAlike Term.Alike) ms ms' → depthOfMembers ms = depthOfMembers ms'
  | [], [], .nil => rfl
  | (_, t) :: ms, (_, t') :: ms', .cons (.mk _ h) hrest => by
    rw [depthOfMembers, depthOfMembers, Term.Alike.depth_eq t t' h,
      depthOfMembers_eq_of_alike ms ms' hrest]

end

/-! ## §4. Results -/

section Results

variable {α β : Type} {R : α → α → Prop} {S : β → β → Prop}

theorem rel_bind {x x' : Option α} {f f' : α → Option β} (h : Option.Rel R x x')
    (hf : ∀ a a', R a a' → Option.Rel S (f a) (f' a')) :
    Option.Rel S (x.bind f) (x'.bind f') := by
  cases h with
  | none => exact .none
  | some h => exact hf _ _ h

theorem rel_map {x x' : Option α} {f f' : α → β} (h : Option.Rel R x x')
    (hf : ∀ a a', R a a' → S (f a) (f' a')) : Option.Rel S (x.map f) (x'.map f') := by
  cases h with
  | none => exact .none
  | some h => exact .some (hf _ _ h)

theorem rel_mapM {P : α → α → Prop} {f f' : α → Option β} {xs xs' : List α}
    (h : Forall₂ P xs xs') (hf : ∀ x ∈ xs, ∀ x' ∈ xs', P x x' → Option.Rel S (f x) (f' x')) :
    Option.Rel (Forall₂ S) (xs.mapM f) (xs'.mapM f') := by
  induction h with
  | nil => exact .some .nil
  | cons hx _ ih =>
    rw [List.mapM_cons, List.mapM_cons]
    refine rel_bind (hf _ (List.mem_cons_self ..) _ (List.mem_cons_self ..) hx) fun y y' hy => ?_
    refine rel_bind (ih fun x hx x' hx' => hf x (List.mem_cons_of_mem _ hx) x'
      (List.mem_cons_of_mem _ hx')) fun ys ys' hys => ?_
    exact .some (.cons hy hys)

theorem rel_foldlM {P : α → α → Prop} {f f' : β → α → Option β} {xs xs' : List α}
    (h : Forall₂ P xs xs') (hf : ∀ x ∈ xs, ∀ x' ∈ xs', P x x' → ∀ s s', S s s' →
      Option.Rel S (f s x) (f' s' x')) {s s' : β} (hs : S s s') :
    Option.Rel S (xs.foldlM f s) (xs'.foldlM f' s') := by
  induction h generalizing s s' with
  | nil => exact .some hs
  | cons hx _ ih =>
    rw [List.foldlM_cons, List.foldlM_cons]
    refine rel_bind (hf _ (List.mem_cons_self ..) _ (List.mem_cons_self ..) hx _ _ hs) ?_
    exact fun s s' hs => ih (fun x hx x' hx' => hf x (List.mem_cons_of_mem _ hx) x'
      (List.mem_cons_of_mem _ hx')) hs

/-- Alike members have the same keys. -/
theorem map_fst_of_alike {Key : Type} {ms ms' : List (Key × α)}
    (h : Forall₂ (NamedAlike R) ms ms') : ms.map Prod.fst = ms'.map Prod.fst := by
  induction h with
  | nil => rfl
  | cons hm _ ih =>
    cases hm with
    | mk key _ => rw [List.map_cons, List.map_cons, ih]

/-- A member put into members. -/
theorem put_alike {R : Value → Value → Prop} {ms ms' : List (String × Value)} (key : String)
    {v v' : Value} (h : Forall₂ (NamedAlike R) ms ms') (hv : R v v') :
    Forall₂ (NamedAlike R) (Value.put ms key v) (Value.put ms' key v') := by
  have hany : (ms.any fun m => m.1 == key) = ms'.any fun m => m.1 == key := by
    simpa only [List.any_map, Function.comp_def] using
      congrArg (List.any · (· == key)) (map_fst_of_alike h)
  rw [Value.put, Value.put, hany]
  split
  · refine List.forall₂_map_left_iff.mpr (List.forall₂_map_right_iff.mpr (h.imp ?_))
    rintro _ _ ⟨name, hm⟩
    dsimp only
    split
    · exact .mk key hv
    · exact .mk name hm
  · exact List.rel_append h (.cons (.mk key hv) .nil)

end Results

/-! ## §5. Values of alike terms -/

mutual

/-- **Alike terms have alike values.** -/
theorem Term.value?_alike : ∀ (t t' : Term), t.Alike t' → ∀ (levels levels' : Nat),
    t.depth ≤ levels → t'.depth ≤ levels' →
      Option.Rel Value.Alike (t.value? levels) (t'.value? levels')
  | _, _, .null, _, _, _, _ => by
    rw [Term.value?, Term.value?]
    exact .some .null
  | _, _, .bool b, _, _, _, _ => by
    rw [Term.value?, Term.value?]
    exact .some (.bool b)
  | _, _, .number h, _, _, _, _ => by
    rw [Term.value?, Term.value?]
    exact .some (.number h)
  | _, _, .string none, _, _, _, _ => by
    rw [Term.value?, Term.value?]
    exact .none
  | _, _, .string (some s), _, _, _, _ => by
    rw [Term.value?, Term.value?]
    exact .some (.string s)
  | .array ts, .array ts', .array h, levels, levels', hlevels, hlevels' => by
    rw [Term.depth] at hlevels hlevels'
    obtain ⟨inner, rfl, hinner⟩ := exists_levels_of_succ_le hlevels
    obtain ⟨inner', rfl, hinner'⟩ := exists_levels_of_succ_le hlevels'
    rw [Term.value?, Term.value?]
    exact rel_map (valuesOf?_alike ts ts' h inner inner' hinner hinner') fun _ _ => .array
  | .object ms, .object ms', .object h, levels, levels', hlevels, hlevels' => by
    rw [Term.depth] at hlevels hlevels'
    obtain ⟨inner, rfl, hinner⟩ := exists_levels_of_succ_le hlevels
    obtain ⟨inner', rfl, hinner'⟩ := exists_levels_of_succ_le hlevels'
    rw [Term.value?, Term.value?]
    exact rel_map (membersOf?_alike ms ms' h inner inner' hinner hinner' [] [] .nil)
      fun _ _ => .object

theorem valuesOf?_alike : ∀ (ts ts' : List Term), Forall₂ Term.Alike ts ts' →
    ∀ (levels levels' : Nat), depthOf ts ≤ levels → depthOf ts' ≤ levels' →
      Option.Rel (Forall₂ Value.Alike) (valuesOf? levels ts) (valuesOf? levels' ts')
  | [], [], .nil, _, _, _, _ => by
    rw [valuesOf?, valuesOf?]
    exact .some .nil
  | t :: ts, t' :: ts', .cons h hrest, levels, levels', hlevels, hlevels' => by
    rw [depthOf] at hlevels hlevels'
    obtain ⟨ht, hts⟩ := Nat.max_le.mp hlevels
    obtain ⟨ht', hts'⟩ := Nat.max_le.mp hlevels'
    rw [valuesOf?, valuesOf?]
    refine rel_bind (Term.value?_alike t t' h levels levels' ht ht') fun v v' hv => ?_
    refine rel_bind (valuesOf?_alike ts ts' hrest levels levels' hts hts') fun vs vs' hvs => ?_
    exact .some (.cons hv hvs)

theorem membersOf?_alike : ∀ (ms ms' : List (Option String × Term)),
    Forall₂ (NamedAlike Term.Alike) ms ms' → ∀ (levels levels' : Nat),
    depthOfMembers ms ≤ levels → depthOfMembers ms' ≤ levels' →
    ∀ (found found' : List (String × Value)), Forall₂ (NamedAlike Value.Alike) found found' →
      Option.Rel (Forall₂ (NamedAlike Value.Alike)) (membersOf? levels ms found)
        (membersOf? levels' ms' found')
  | [], [], .nil, _, _, _, _, found, found', hfound => by
    rw [membersOf?, membersOf?]
    exact .some hfound
  | (_, t) :: ms, (_, t') :: ms', .cons (.mk none h) hrest, _, _, _, _, _, _, _ => by
    rw [membersOf?, membersOf?]
    exact .none
  | (_, t) :: ms, (_, t') :: ms', .cons (.mk (some key) h) hrest, levels, levels', hlevels,
      hlevels', found, found', hfound => by
    rw [depthOfMembers] at hlevels hlevels'
    obtain ⟨ht, hms⟩ := Nat.max_le.mp hlevels
    obtain ⟨ht', hms'⟩ := Nat.max_le.mp hlevels'
    rw [membersOf?, membersOf?]
    show Option.Rel _ ((t.value? levels).bind _) ((t'.value? levels').bind _)
    refine rel_bind (Term.value?_alike t t' h levels levels' ht ht') fun v v' hv => ?_
    exact membersOf?_alike ms ms' hrest levels levels' hms hms' _ _ (put_alike key hfound hv)

end

/-! ## §6. Decoders -/

section Decoders

variable {α : Type} {d d' : Decoder α} {R : α → α → Prop} {limit : Nat}

/-- **Whether two decoders look into no numbers**: they make related data of alike terms below a
depth, whatever the levels are that the terms do not reach. -/
def Agree (limit : Nat) (d d' : Decoder α) (R : α → α → Prop) : Prop :=
  ∀ ⦃t t' : Term⦄, t.Alike t' → t.depth < limit → ∀ ⦃levels levels' : Nat⦄,
    t.depth ≤ levels → t'.depth ≤ levels' → Option.Rel R (d levels t) (d' levels' t')

theorem agree_value (limit : Nat) : Agree limit Decoder.value Decoder.value Value.Alike :=
  fun t t' h _ _ _ hlevels hlevels' => Term.value?_alike t t' h _ _ hlevels hlevels'

/-- No term of a list is deeper than the list. -/
theorem depth_le_of_mem {ts : List Term} {t : Term} (h : t ∈ ts) : t.depth ≤ depthOf ts := by
  induction ts with
  | nil => exact absurd h List.not_mem_nil
  | cons first rest ih =>
    rw [depthOf]
    rcases List.mem_cons.mp h with rfl | h
    · exact Nat.le_max_left ..
    · exact (ih h).trans (Nat.le_max_right ..)

/-- No member of an object is deeper than the object. -/
theorem depth_le_of_mem_members {ms : List (Option String × Term)} {m : Option String × Term}
    (h : m ∈ ms) : m.2.depth ≤ depthOfMembers ms := by
  induction ms with
  | nil => exact absurd h List.not_mem_nil
  | cons first rest ih =>
    rw [depthOfMembers]
    rcases List.mem_cons.mp h with rfl | h
    · exact Nat.le_max_left ..
    · exact (ih h).trans (Nat.le_max_right ..)

theorem agree_list (hd : Agree limit d d' R) :
    Agree limit (Decoder.list d) (Decoder.list d') (Forall₂ R) := by
  intro t t' h hlimit levels levels' hlevels hlevels'
  cases h with
  | array h =>
    rw [Term.depth] at hlimit hlevels hlevels'
    obtain ⟨inner, rfl, hinner⟩ := exists_levels_of_succ_le hlevels
    obtain ⟨inner', rfl, hinner'⟩ := exists_levels_of_succ_le hlevels'
    refine rel_mapM h fun t ht t' ht' halike => ?_
    have hdepth := depth_le_of_mem ht
    exact hd halike (by omega) (hdepth.trans hinner) ((depth_le_of_mem ht').trans hinner')
  | _ => cases levels <;> cases levels' <;> exact .none

/-- Whether two fields are found alike, none of them deeper than its levels. -/
inductive Field.Alike (limit : Nat) : Field → Field → Prop where
  | absent : Alike limit .absent .absent
  | cut : Alike limit .cut .cut
  | present {t t' : Term} {levels levels' : Nat} (h : t.Alike t') (hlimit : t.depth < limit)
    (hlevels : t.depth ≤ levels) (hlevels' : t'.depth ≤ levels') :
    Alike limit (.present levels t) (.present levels' t')

theorem withDefault_alike (hd : Agree limit d d' R) {default : α} (hdefault : R default default)
    {f f' : Field} (h : f.Alike limit f') :
    Option.Rel R (f.withDefault d default) (f'.withDefault d' default) := by
  cases h with
  | absent => exact .some hdefault
  | cut => exact .some hdefault
  | present h hlimit hlevels hlevels' => exact hd h hlimit hlevels hlevels'

/-- The field of an object. -/
theorem fieldOf?_alike {ms ms' : List (Option String × Term)} {levels levels' : Nat}
    (h : Forall₂ (NamedAlike Term.Alike) ms ms') (hlimit : depthOfMembers ms < limit)
    (hlevels : depthOfMembers ms ≤ levels) (hlevels' : depthOfMembers ms' ≤ levels')
    (name : String) :
    Option.Rel (Field.Alike limit) (fieldOf? levels ms name) (fieldOf? levels' ms' name) := by
  have hfilter : Forall₂ (NamedAlike Term.Alike) (ms.filter fun m => m.1 == some name)
      (ms'.filter fun m => m.1 == some name) :=
    List.rel_filter (fun _ _ ⟨key, _⟩ => Iff.rfl) h
  have hdepth : ∀ m ∈ ms.filter (fun m => m.1 == some name), m.2.depth ≤ depthOfMembers ms :=
    fun m hm => depth_le_of_mem_members (List.mem_of_mem_filter hm)
  have hdepth' : ∀ m ∈ ms'.filter (fun m => m.1 == some name), m.2.depth ≤ depthOfMembers ms' :=
    fun m hm => depth_le_of_mem_members (List.mem_of_mem_filter hm)
  rw [fieldOf?, fieldOf?]
  generalize ms.filter (fun m => m.1 == some name) = found at hfilter hdepth ⊢
  generalize ms'.filter (fun m => m.1 == some name) = found' at hfilter hdepth' ⊢
  cases hfilter with
  | nil => exact .some .absent
  | cons hm hrest =>
    cases hrest with
    | nil =>
      cases hm with
      | mk key hterm =>
        have hfirst := hdepth _ (List.mem_cons_self ..)
        exact .some (.present hterm (hfirst.trans_lt hlimit) (hfirst.trans hlevels)
          ((hdepth' _ (List.mem_cons_self ..)).trans hlevels'))
    | cons _ _ => exact .none

theorem fieldsInOrder?_alike (names : List String) {ts ts' : List Term} {levels levels' : Nat}
    (h : Forall₂ Term.Alike ts ts') (hlimit : depthOf ts < limit) (hlevels : depthOf ts ≤ levels)
    (hlevels' : depthOf ts' ≤ levels') :
    Option.Rel (Forall₂ (Field.Alike limit)) (fieldsInOrder? levels names ts)
      (fieldsInOrder? levels' names ts') := by
  induction names generalizing ts ts' with
  | nil =>
    cases h with
    | nil => exact .some .nil
    | cons _ _ => exact .none
  | cons name names ih =>
    cases h with
    | nil => exact rel_map (ih .nil hlimit hlevels hlevels') fun _ _ => .cons .cut
    | cons ht hrest =>
      rw [depthOf] at hlimit hlevels hlevels'
      obtain ⟨hfirst, hlimit⟩ := Nat.max_lt.mp hlimit
      obtain ⟨hfirstLevels, hlevels⟩ := Nat.max_le.mp hlevels
      obtain ⟨hfirstLevels', hlevels'⟩ := Nat.max_le.mp hlevels'
      exact rel_map (ih hrest hlimit hlevels hlevels') fun _ _ =>
        .cons (.present ht hfirst hfirstLevels hfirstLevels')

/-- **The fields of a record** are one level below it. -/
theorem recordFields?_alike (names : List String) :
    ∀ ⦃t t' : Term⦄, t.Alike t' → t.depth < limit + 1 → ∀ ⦃levels levels' : Nat⦄,
      t.depth ≤ levels → t'.depth ≤ levels' → Option.Rel (Forall₂ (Field.Alike limit))
        (recordFields? names levels t) (recordFields? names levels' t') := by
  intro t t' h hlimit levels levels' hlevels hlevels'
  cases h with
  | @object ms ms' h =>
    rw [Term.depth] at hlimit hlevels hlevels'
    obtain ⟨inner, rfl, hinner⟩ := exists_levels_of_succ_le hlevels
    obtain ⟨inner', rfl, hinner'⟩ := exists_levels_of_succ_le hlevels'
    have hkeys : (ms.all fun m => m.1.isSome) = ms'.all fun m => m.1.isSome := by
      simpa only [List.all_map, Function.comp_def] using
        congrArg (List.all · Option.isSome) (map_fst_of_alike h)
    rw [recordFields?, recordFields?, hkeys]
    split
    · refine rel_mapM (List.forall₂_same.mpr fun _ _ => rfl) fun name _ _ _ heq => ?_
      rw [← heq]
      exact fieldOf?_alike h (Nat.lt_of_succ_lt_succ hlimit) hinner hinner' name
    · exact .none
  | array h =>
    rw [Term.depth] at hlimit hlevels hlevels'
    obtain ⟨inner, rfl, hinner⟩ := exists_levels_of_succ_le hlevels
    obtain ⟨inner', rfl, hinner'⟩ := exists_levels_of_succ_le hlevels'
    exact fieldsInOrder?_alike names h (Nat.lt_of_succ_lt_succ hlimit) hinner hinner'
  | _ => cases levels <;> cases levels' <;> exact .none

end Decoders

end SingleFile.Json
