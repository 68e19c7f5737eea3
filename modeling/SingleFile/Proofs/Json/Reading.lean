/-
  SingleFile.Proofs.Json.Reading — READING WHAT THE GRAMMAR SPELLS
  ────────────────────────────────────────────────────────────────
  The reader accepts a text exactly if it is JSON, and reads the term that
  the text spells.  One direction is by induction on the grammar, the other
  one on the bound of the reader; each step of the reader has a lemma for
  either direction.

  Main results:
    * `Spells.reads` — what is read from a text that spells something.
    * `spelled_of_read` — what a text spells that was read.
    * `ofText?_of_isJson`, `isJson_of_ofText?` — whole texts.
-/
import SingleFile.Proofs.Json.Tokens

namespace SingleFile.Json

open SingleFile.Text

/-! ## §1. What is read -/

/-- Whether a text goes on with a blank, a comma or a closing bracket, or ends. -/
def Delimits (rest : List Char) : Prop :=
  ∀ c ∈ rest.head?, isBlank c = true ∨ c ∈ [',', ']', '\x7d']

theorem delimits_nil : Delimits [] := by
  rintro c ⟨⟩

theorem delimits_append {g : List Char} (hg : IsBlanks g) {rest : List Char}
    (hrest : Delimits rest) : Delimits (g ++ rest) := by
  cases g with
  | nil => exact hrest
  | cons b g =>
    rintro c ⟨⟩
    exact .inl (hg _ (List.mem_cons_self ..))

theorem delimits_cons {c : Char} (hc : c ∈ [',', ']', '\x7d']) (rest : List Char) :
    Delimits (c :: rest) := by
  rintro _ ⟨⟩
  exact .inr hc

theorem Delimits.endsNumber {rest : List Char} (h : Delimits rest) : EndsNumber rest := by
  intro c hc
  rcases h c hc with hblank | hmark
  · simp only [isBlank, Bool.or_eq_true, beq_iff_eq] at hblank
    rcases hblank with ((rfl | rfl) | rfl) | rfl <;> decide
  · simp only [List.mem_cons, List.not_mem_nil, or_false] at hmark
    rcases hmark with rfl | rfl | rfl <;> decide

/-- Where no comma may stand in front of it, a list ends with blanks and its bracket. -/
theorem Closes.exists_blanks {bracket : Char} {close : List Char}
    (h : Closes IsBlanks false bracket close) : ∃ g, IsBlanks g ∧ close = g ++ [bracket] := by
  cases h with
  | plain hg => exact ⟨_, hg, rfl⟩
  | comma htrailing => cases htrailing

/-- A number is read where a term is looked for. -/
theorem term?_number (n : NumberText) {g : List Char} (hg : IsBlanks g) (bound : Nat)
    {rest : List Char} (hrest : EndsNumber rest) :
    term? (bound + 1) (g ++ (n.text ++ rest)) = some (.number n.value?, rest) := by
  obtain ⟨c, more, htext, hc⟩ := n.exists_cons
  have hread := number?_text n hrest
  have hbegins : BeginsTerm c := by
    rcases hc with rfl | hc
    · decide
    · exact .inr hc
  have hne (d : Char) (hd : d ≠ '-' ∧ isDigit d = false) : c ≠ d := by
    rintro rfl
    rcases hc with hc | hc
    · exact hd.1 hc
    · exact absurd (hc.symm.trans hd.2) (by decide)
  rw [htext] at hread ⊢
  rw [List.cons_append] at hread ⊢
  rw [term?, skipBlanks_append hg (isBlank_of_beginsTerm hbegins)]
  -- No other term begins like a number.
  split
  · next heq => cases heq
  · next heq => exact absurd (List.cons.inj heq).1 (hne '"' (by decide))
  · next heq => exact absurd (List.cons.inj heq).1 (hne '[' (by decide))
  · next heq => exact absurd (List.cons.inj heq).1 (hne '\x7b' (by decide))
  · next heq => exact absurd (List.cons.inj heq).1 (hne 'n' (by decide))
  · next heq => exact absurd (List.cons.inj heq).1 (hne 't' (by decide))
  · next heq => exact absurd (List.cons.inj heq).1 (hne 'f' (by decide))
  · rw [hread]
    rfl

variable {bound : Nat} {text rest : List Char}

/-- The last item of an array. -/
theorem items?_last {t : Term} {behind : List Char} (ht : term? bound text = some (t, behind))
    (hclose : skipBlanks behind = ']' :: rest) : items? (bound + 1) text = some ([t], rest) := by
  rw [items?, ht]
  simp only [Option.bind_eq_bind, Option.bind_some]
  rw [hclose]
  rfl

/-- An item of an array in front of others. -/
theorem items?_more {t : Term} {terms : List Term} {behind others : List Char}
    (ht : term? bound text = some (t, behind)) (hcomma : skipBlanks behind = ',' :: others)
    (hothers : items? bound others = some (terms, rest)) :
    items? (bound + 1) text = some (t :: terms, rest) := by
  rw [items?, ht]
  simp only [Option.bind_eq_bind, Option.bind_some]
  rw [hcomma]
  show (items? bound others).bind _ = _
  rw [hothers]
  rfl

/-- Whether the reader finds a key with a term in front of a text, whose characters are bounded. -/
def FindsMember (bound : Nat) (text : List Char) (key : Option String) (t : Term)
    (rest : List Char) : Prop :=
  ∃ inside behind value, skipBlanks text = '"' :: inside ∧ string? inside = some (key, behind) ∧
    skipBlanks behind = ':' :: value ∧ term? bound value = some (t, rest)

/-- The last member of an object. -/
theorem members?_last {key : Option String} {t : Term} {behind : List Char}
    (hmember : FindsMember bound text key t behind)
    (hclose : skipBlanks behind = '\x7d' :: rest) :
    members? (bound + 1) text = some ([(key, t)], rest) := by
  obtain ⟨inside, behindKey, value, hinside, hstring, hcolon, hvalue⟩ := hmember
  rw [members?, hinside]
  simp only [hstring, hcolon, hvalue, Option.bind_eq_bind, Option.bind_some]
  rw [hclose]
  rfl

/-- A member of an object in front of others. -/
theorem members?_more {key : Option String} {t : Term} {members : List (Option String × Term)}
    {behind others : List Char} (hmember : FindsMember bound text key t behind)
    (hcomma : skipBlanks behind = ',' :: others)
    (hothers : members? bound others = some (members, rest)) :
    members? (bound + 1) text = some ((key, t) :: members, rest) := by
  obtain ⟨inside, behindKey, value, hinside, hstring, hcolon, hvalue⟩ := hmember
  rw [members?, hinside]
  simp only [hstring, hcolon, hvalue, Option.bind_eq_bind, Option.bind_some]
  rw [hcomma]
  show (members? bound others).bind _ = _
  rw [hothers]
  rfl

/-- Whether the reader reads something from a text that spells it, with blanks in front and
whatever may come behind. -/
def Reads : Phrase → List Char → Prop
  | .term t, text => ∀ g bound rest, IsBlanks g → text.length ≤ bound → Delimits rest →
    term? bound (g ++ (text ++ rest)) = some (t, rest)
  | .items terms, text => ∀ g bound rest, IsBlanks g → text.length ≤ bound →
    items? bound (g ++ (text ++ rest)) = some (terms, rest)
  | .member key t, text => ∀ g bound rest, IsBlanks g → text.length ≤ bound + 1 → Delimits rest →
    FindsMember bound (g ++ (text ++ rest)) key t rest
  | .members members, text => ∀ g bound rest, IsBlanks g → text.length ≤ bound →
    members? bound (g ++ (text ++ rest)) = some (members, rest)

/-- A bound on the characters of a text is one on those behind the first. -/
theorem exists_less {n bound : Nat} (h : n + 1 ≤ bound) : ∃ less, bound = less + 1 ∧ n ≤ less :=
  ⟨bound - 1, by omega, by omega⟩

/-- A word that the reader knows by its first character. -/
theorem reads_word {t : Term} {c : Char} {word : List Char} (hc : isBlank c = false)
    (hread : ∀ bound text rest, skipBlanks text = c :: (word ++ rest) →
      term? (bound + 1) text = some (t, rest)) : Reads (.term t) (c :: word) := by
  intro g bound rest hg hbound _
  obtain ⟨bound, rfl, -⟩ := exists_less hbound
  exact hread bound _ rest (skipBlanks_append hg hc (word ++ rest))

theorem reads_number (n : NumberText) : Reads (.term (.number n.value?)) n.text := by
  intro g bound rest hg hbound hrest
  obtain ⟨c, more, htext, -⟩ := n.exists_cons
  rw [htext] at hbound
  obtain ⟨bound, rfl, -⟩ := exists_less hbound
  exact term?_number n hg bound hrest.endsNumber

theorem reads_string {value : Option String} (h : IsString value text) :
    Reads (.term (.string value)) text := by
  intro g bound rest hg hbound _
  obtain ⟨inside, htext, hread⟩ := string?_of_isString h rest
  obtain ⟨codes, body, -, rfl, -⟩ := h
  obtain ⟨bound, rfl, -⟩ := exists_less hbound
  rw [htext, term?, skipBlanks_append hg (by decide)]
  show (string? inside).map _ = _
  rw [hread]
  rfl

/-- Brackets with nothing but blanks between them. -/
theorem reads_emptyArray {h : List Char} (hh : IsBlanks h) :
    Reads (.term (.array [])) ('[' :: (h ++ [']'])) := by
  intro g bound rest hg hbound _
  obtain ⟨bound, rfl, -⟩ := exists_less hbound
  rw [List.cons_append, List.append_assoc, term?, skipBlanks_append hg (by decide)]
  simp only [List.singleton_append, skipBlanks_append hh (show isBlank ']' = false by decide)]

/-- Braces with nothing but blanks between them. -/
theorem reads_emptyObject {h : List Char} (hh : IsBlanks h) :
    Reads (.term (.object [])) ('\x7b' :: (h ++ ['\x7d'])) := by
  intro g bound rest hg hbound _
  obtain ⟨bound, rfl, -⟩ := exists_less hbound
  rw [List.cons_append, List.append_assoc, term?, skipBlanks_append hg (by decide)]
  simp only [List.singleton_append, skipBlanks_append hh (show isBlank '\x7d' = false by decide)]

/-- Items in brackets: the first of them does not begin like the closing bracket. -/
theorem reads_array {h : List Char} {terms : List Term} (hh : IsBlanks h)
    (hitems : Spells IsBlanks false (.items terms) text) (ih : Reads (.items terms) text) :
    Reads (.term (.array terms)) ('[' :: (h ++ text)) := by
  intro g bound rest hg hbound _
  obtain ⟨bound, rfl, hless⟩ := exists_less hbound
  obtain ⟨c, more, rfl, hc⟩ := hitems.items_begins
  have hread := ih h bound rest hh (by rw [List.length_append] at hless; omega)
  rw [List.cons_append, List.append_assoc, term?, skipBlanks_append hg (by decide)]
  simp only [List.cons_append, skipBlanks_append hh (isBlank_of_beginsTerm hc)]
  split
  · next heq =>
    obtain rfl := (List.cons.inj heq).1
    exact absurd hc (by decide)
  · rw [List.cons_append] at hread
    rw [hread]
    rfl

/-- Members in braces. -/
theorem reads_object {h : List Char} {members : List (Option String × Term)} (hh : IsBlanks h)
    (hmembers : Spells IsBlanks false (.members members) text)
    (ih : Reads (.members members) text) :
    Reads (.term (.object members)) ('\x7b' :: (h ++ text)) := by
  intro g bound rest hg hbound _
  obtain ⟨bound, rfl, hless⟩ := exists_less hbound
  obtain ⟨more, rfl⟩ := hmembers.members_begins
  have hread := ih h bound rest hh (by rw [List.length_append] at hless; omega)
  rw [List.cons_append, List.append_assoc, term?, skipBlanks_append hg (by decide)]
  simp only [List.cons_append, skipBlanks_append hh (show isBlank '"' = false by decide)]
  show (members? bound _).map _ = _
  rw [List.cons_append] at hread
  rw [hread]
  rfl

theorem reads_lastItem {t : Term} {close : List Char} (ih : Reads (.term t) text)
    (hclose : Closes IsBlanks false ']' close) : Reads (.items [t]) (text ++ close) := by
  intro g bound rest hg hbound
  obtain ⟨h, hh, rfl⟩ := hclose.exists_blanks
  simp only [List.length_append, List.length_singleton] at hbound
  obtain ⟨bound, rfl, hless⟩ := @exists_less (text.length + h.length) _ hbound
  simp only [List.append_assoc, List.singleton_append]
  exact items?_last (ih g bound _ hg (by omega)
    (delimits_append hh (delimits_cons (by decide) rest))) (skipBlanks_append hh (by decide) rest)

theorem reads_moreItems {t : Term} {terms : List Term} {h h' others : List Char}
    (ih : Reads (.term t) text) (hh : IsBlanks h) (hh' : IsBlanks h')
    (ihothers : Reads (.items terms) others) :
    Reads (.items (t :: terms)) (text ++ (h ++ ',' :: (h' ++ others))) := by
  intro g bound rest hg hbound
  simp only [List.length_append, List.length_cons] at hbound
  obtain ⟨bound, rfl, hless⟩ :=
    @exists_less (text.length + h.length + h'.length + others.length) bound (by omega)
  simp only [List.append_assoc, List.cons_append]
  exact items?_more (ih g bound _ hg (by omega)
    (delimits_append hh (delimits_cons (by decide) _))) (skipBlanks_append hh (by decide) _)
    (ihothers h' bound rest hh' (by omega))

theorem reads_member {key : Option String} {t : Term} {k h h' : List Char} (hkey : IsString key k)
    (hh : IsBlanks h) (hh' : IsBlanks h') (ih : Reads (.term t) text) :
    Reads (.member key t) (k ++ (h ++ ':' :: (h' ++ text))) := by
  intro g bound rest hg hbound hrest
  simp only [List.length_append, List.length_cons] at hbound
  simp only [List.append_assoc, List.cons_append]
  obtain ⟨inside, hinside, hstring⟩ :=
    string?_of_isString hkey (h ++ ':' :: (h' ++ (text ++ rest)))
  rw [hinside]
  exact ⟨inside, _, _, skipBlanks_append hg (by decide) _, hstring,
    skipBlanks_append hh (by decide) _, ih h' bound rest hh' (by omega) hrest⟩

theorem reads_lastMember {key : Option String} {t : Term} {close : List Char}
    (ih : Reads (.member key t) text) (hclose : Closes IsBlanks false '\x7d' close) :
    Reads (.members [(key, t)]) (text ++ close) := by
  intro g bound rest hg hbound
  obtain ⟨h, hh, rfl⟩ := hclose.exists_blanks
  simp only [List.length_append, List.length_singleton] at hbound
  obtain ⟨bound, rfl, hless⟩ := @exists_less (text.length + h.length) _ hbound
  simp only [List.append_assoc, List.singleton_append]
  exact members?_last (ih g bound _ hg (by omega)
    (delimits_append hh (delimits_cons (by decide) rest))) (skipBlanks_append hh (by decide) rest)

theorem reads_moreMembers {key : Option String} {t : Term} {members : List (Option String × Term)}
    {h h' others : List Char} (ih : Reads (.member key t) text) (hh : IsBlanks h)
    (hh' : IsBlanks h') (ihothers : Reads (.members members) others) :
    Reads (.members ((key, t) :: members)) (text ++ (h ++ ',' :: (h' ++ others))) := by
  intro g bound rest hg hbound
  simp only [List.length_append, List.length_cons] at hbound
  obtain ⟨bound, rfl, hless⟩ :=
    @exists_less (text.length + h.length + h'.length + others.length) bound (by omega)
  simp only [List.append_assoc, List.cons_append]
  exact members?_more (ih g bound _ hg (by omega)
    (delimits_append hh (delimits_cons (by decide) _))) (skipBlanks_append hh (by decide) _)
    (ihothers h' bound rest hh' (by omega))

/-- **What the reader reads.** -/
theorem Spells.reads {phrase : Phrase} {text : List Char} (h : Spells IsBlanks false phrase text) :
    Reads phrase text := by
  induction h with
  | nullWord => exact reads_word (by decide) fun bound text rest h => by rw [term?, h]; rfl
  | trueWord => exact reads_word (by decide) fun bound text rest h => by rw [term?, h]; rfl
  | falseWord => exact reads_word (by decide) fun bound text rest h => by rw [term?, h]; rfl
  | number n => exact reads_number n
  | string h => exact reads_string h
  | emptyArray hg => exact reads_emptyArray hg
  | array hg hitems ih => exact reads_array hg hitems ih
  | emptyObject hg => exact reads_emptyObject hg
  | object hg hmembers ih => exact reads_object hg hmembers ih
  | lastItem _ hclose ih => exact reads_lastItem ih hclose
  | moreItems _ hg hg' _ ih ihothers => exact reads_moreItems ih hg hg' ihothers
  | member hkey hg hg' _ ih => exact reads_member hkey hg hg' ih
  | lastMember _ hclose ih => exact reads_lastMember ih hclose
  | moreMembers _ hg hg' _ ih ihothers => exact reads_moreMembers ih hg hg' ihothers

/-! ## §2. Which term was read -/

/-- A piece of a text in front of which there are blanks, and what comes behind. -/
def Spelled (phrase : Phrase) (text rest : List Char) : Prop :=
  ∃ g body, IsBlanks g ∧ Spells IsBlanks false phrase body ∧ text = g ++ (body ++ rest)

theorem eq_of_afterWord {word text rest : List Char} (h : word?.afterWord word text = some rest) :
    text = word ++ rest := by
  fun_induction word?.afterWord word text with
  | case1 => exact Option.some.inj h
  | case2 => cases h
  | case3 w ws cs ih => rw [List.cons_append, ← ih h]
  | case4 => cases h

theorem of_word? {word text rest : List Char} {t t' : Term}
    (h : (word?.afterWord word text).map (fun rest => (t, rest)) = some (t', rest)) :
    t' = t ∧ text = word ++ rest := by
  obtain ⟨rest', hword, heq⟩ := Option.map_eq_some_iff.mp h
  obtain ⟨rfl, rfl⟩ := Prod.mk.inj heq
  exact ⟨rfl, eq_of_afterWord hword⟩

/-- A blank piece of a text, and what is found behind it. -/
theorem exists_blanks_of_skipBlanks {text found : List Char} (h : skipBlanks text = found) :
    ∃ g, IsBlanks g ∧ text = g ++ found := by
  obtain ⟨g, hg, htext⟩ := exists_skipped text
  exact ⟨g, hg, by rw [← h]; exact htext⟩

/-- How the items of an array were read. -/
theorem cases_of_items? {terms : List Term} (h : items? (bound + 1) text = some (terms, rest)) :
    ∃ t behind, term? bound text = some (t, behind) ∧
      ((terms = [t] ∧ skipBlanks behind = ']' :: rest) ∨
        ∃ others more, terms = t :: others ∧ skipBlanks behind = ',' :: more ∧
          items? bound more = some (others, rest)) := by
  rw [items?] at h
  obtain ⟨⟨t, behind⟩, ht, h⟩ := Option.bind_eq_some_iff.mp h
  refine ⟨t, behind, ht, ?_⟩
  dsimp only at h
  split at h
  · next more hcomma =>
    obtain ⟨⟨others, rest'⟩, hothers, h⟩ := Option.bind_eq_some_iff.mp h
    obtain ⟨rfl, rfl⟩ := Prod.mk.inj (Option.some.inj h)
    exact .inr ⟨others, more, rfl, hcomma, hothers⟩
  · next hclose =>
    obtain ⟨rfl, rfl⟩ := Prod.mk.inj (Option.some.inj h)
    exact .inl ⟨rfl, hclose⟩
  · cases h

/-- How the members of an object were read. -/
theorem cases_of_members? {members : List (Option String × Term)}
    (h : members? (bound + 1) text = some (members, rest)) :
    ∃ key t behind, FindsMember bound text key t behind ∧
      ((members = [(key, t)] ∧ skipBlanks behind = '\x7d' :: rest) ∨
        ∃ others more, members = (key, t) :: others ∧ skipBlanks behind = ',' :: more ∧
          members? bound more = some (others, rest)) := by
  rw [members?] at h
  split at h
  · next inside hinside =>
    obtain ⟨⟨key, behindKey⟩, hkey, h⟩ := Option.bind_eq_some_iff.mp h
    dsimp only at h
    split at h
    · next value hcolon =>
      obtain ⟨⟨t, behind⟩, hvalue, h⟩ := Option.bind_eq_some_iff.mp h
      refine ⟨key, t, behind, ⟨inside, behindKey, value, hinside, hkey, hcolon, hvalue⟩, ?_⟩
      dsimp only at h
      split at h
      · next more hcomma =>
        obtain ⟨⟨others, rest'⟩, hothers, h⟩ := Option.bind_eq_some_iff.mp h
        obtain ⟨rfl, rfl⟩ := Prod.mk.inj (Option.some.inj h)
        exact .inr ⟨others, more, rfl, hcomma, hothers⟩
      · next hclose =>
        obtain ⟨rfl, rfl⟩ := Prod.mk.inj (Option.some.inj h)
        exact .inl ⟨rfl, hclose⟩
      · cases h
    · cases h
  · cases h

/-- Which term was read, if that is known of the items and members in it. -/
theorem spelled_of_term? {t : Term}
    (hitems : ∀ text terms rest, items? bound text = some (terms, rest) →
      Spelled (.items terms) text rest)
    (hmembers : ∀ text members rest, members? bound text = some (members, rest) →
      Spelled (.members members) text rest)
    (h : term? (bound + 1) text = some (t, rest)) : Spelled (.term t) text rest := by
  rw [term?] at h
  -- One case for each way in which a term begins.
  split at h
  · cases h
  · next inside hskip =>
    obtain ⟨g, hg, rfl⟩ := exists_blanks_of_skipBlanks hskip
    obtain ⟨⟨value, rest'⟩, hstring, heq⟩ := Option.map_eq_some_iff.mp h
    obtain ⟨rfl, rfl⟩ := Prod.mk.inj heq
    obtain ⟨body, hbody, htext⟩ := isString_of_string? hstring
    exact ⟨g, body, hg, .string hbody, by rw [htext]⟩
  · next inside hskip =>
    obtain ⟨g, hg, rfl⟩ := exists_blanks_of_skipBlanks hskip
    split at h
    · next hclose =>
      obtain ⟨g', hg', rfl⟩ := exists_blanks_of_skipBlanks hclose
      obtain ⟨rfl, rfl⟩ := Prod.mk.inj (Option.some.inj h)
      exact ⟨g, _, hg, .emptyArray hg', by simp⟩
    · obtain ⟨⟨terms, rest'⟩, hread, heq⟩ := Option.map_eq_some_iff.mp h
      obtain ⟨rfl, rfl⟩ := Prod.mk.inj heq
      obtain ⟨g', body, hg', hbody, rfl⟩ := hitems _ _ _ hread
      exact ⟨g, _, hg, .array hg' hbody, by simp⟩
  · next inside hskip =>
    obtain ⟨g, hg, rfl⟩ := exists_blanks_of_skipBlanks hskip
    split at h
    · next hclose =>
      obtain ⟨g', hg', rfl⟩ := exists_blanks_of_skipBlanks hclose
      obtain ⟨rfl, rfl⟩ := Prod.mk.inj (Option.some.inj h)
      exact ⟨g, _, hg, .emptyObject hg', by simp⟩
    · obtain ⟨⟨members, rest'⟩, hread, heq⟩ := Option.map_eq_some_iff.mp h
      obtain ⟨rfl, rfl⟩ := Prod.mk.inj heq
      obtain ⟨g', body, hg', hbody, rfl⟩ := hmembers _ _ _ hread
      exact ⟨g, _, hg, .object hg' hbody, by simp⟩
  · next inside hskip =>
    obtain ⟨g, hg, rfl⟩ := exists_blanks_of_skipBlanks hskip
    obtain ⟨rfl, rfl⟩ := of_word? h
    exact ⟨g, _, hg, .nullWord, rfl⟩
  · next inside hskip =>
    obtain ⟨g, hg, rfl⟩ := exists_blanks_of_skipBlanks hskip
    obtain ⟨rfl, rfl⟩ := of_word? h
    exact ⟨g, _, hg, .trueWord, rfl⟩
  · next inside hskip =>
    obtain ⟨g, hg, rfl⟩ := exists_blanks_of_skipBlanks hskip
    obtain ⟨rfl, rfl⟩ := of_word? h
    exact ⟨g, _, hg, .falseWord, rfl⟩
  · obtain ⟨⟨value, rest'⟩, hnumber, heq⟩ := Option.map_eq_some_iff.mp h
    obtain ⟨rfl, rfl⟩ := Prod.mk.inj heq
    obtain ⟨n, rfl, hn⟩ := spells_of_number? hnumber
    obtain ⟨g, hg, rfl⟩ := exists_blanks_of_skipBlanks hn
    exact ⟨g, n.text, hg, .number n, rfl⟩

/-- A member that was found is spelled by what it was found in. -/
theorem spelled_of_findsMember {key : Option String} {t : Term}
    (hterm : ∀ text t rest, term? bound text = some (t, rest) → Spelled (.term t) text rest)
    (h : FindsMember bound text key t rest) : Spelled (.member key t) text rest := by
  obtain ⟨inside, behind, value, hinside, hkey, hcolon, hvalue⟩ := h
  obtain ⟨g, hg, rfl⟩ := exists_blanks_of_skipBlanks hinside
  obtain ⟨k, hk, htext⟩ := isString_of_string? hkey
  obtain ⟨h₁, hh₁, rfl⟩ := exists_blanks_of_skipBlanks hcolon
  obtain ⟨h₂, body, hh₂, hbody, rfl⟩ := hterm _ _ _ hvalue
  exact ⟨g, _, hg, .member hk hh₁ hh₂ hbody, by rw [htext]; simp⟩

/-- **Which term was read**, and which items and members. -/
theorem spelled_of_read (bound : Nat) :
    (∀ text t rest, term? bound text = some (t, rest) → Spelled (.term t) text rest) ∧
      (∀ text terms rest, items? bound text = some (terms, rest) →
        Spelled (.items terms) text rest) ∧
      ∀ text members rest, members? bound text = some (members, rest) →
        Spelled (.members members) text rest := by
  induction bound with
  | zero =>
    refine ⟨fun text t rest h => ?_, fun text terms rest h => ?_, fun text members rest h => ?_⟩
    · cases h
    · cases h
    · cases h
  | succ bound ih =>
    obtain ⟨ihterm, ihitems, ihmembers⟩ := ih
    refine ⟨fun text t rest h => spelled_of_term? ihitems ihmembers h, fun text terms rest h => ?_,
      fun text members rest h => ?_⟩
    · obtain ⟨t, behind, ht, hcases⟩ := cases_of_items? h
      obtain ⟨g, body, hg, hbody, rfl⟩ := ihterm _ _ _ ht
      rcases hcases with ⟨rfl, hclose⟩ | ⟨others, more, rfl, hcomma, hothers⟩
      · obtain ⟨g', hg', rfl⟩ := exists_blanks_of_skipBlanks hclose
        exact ⟨g, _, hg, .lastItem hbody (.plain hg'), by simp⟩
      · obtain ⟨g', hg', rfl⟩ := exists_blanks_of_skipBlanks hcomma
        obtain ⟨g'', body', hg'', hbody', rfl⟩ := ihitems _ _ _ hothers
        exact ⟨g, _, hg, .moreItems hbody hg' hg'' hbody', by simp⟩
    · obtain ⟨key, t, behind, hmember, hcases⟩ := cases_of_members? h
      obtain ⟨g, body, hg, hbody, rfl⟩ := spelled_of_findsMember ihterm hmember
      rcases hcases with ⟨rfl, hclose⟩ | ⟨others, more, rfl, hcomma, hothers⟩
      · obtain ⟨g', hg', rfl⟩ := exists_blanks_of_skipBlanks hclose
        exact ⟨g, _, hg, .lastMember hbody (.plain hg'), by simp⟩
      · obtain ⟨g', hg', rfl⟩ := exists_blanks_of_skipBlanks hcomma
        obtain ⟨g'', body', hg'', hbody', rfl⟩ := ihmembers _ _ _ hothers
        exact ⟨g, _, hg, .moreMembers hbody hg' hg'' hbody', by simp⟩

/-! ## §3. Texts -/

/-- **What a text is read as.** -/
theorem ofText?_of_isJson {t : Term} {text : List Char} (h : IsJson t text) :
    Term.ofText? text = some t := by
  obtain ⟨g, body, g', hg, hbody, hg', rfl⟩ := h
  have hread := hbody.reads g ((g ++ (body ++ g')).length + 1) g' hg
    (by simp only [List.length_append]; omega)
    (by simpa using delimits_append hg' delimits_nil)
  rw [Term.ofText?, hread]
  show (if (skipBlanks g').isEmpty then some t else none) = some t
  rw [skipBlanks_of_isBlanks hg']
  rfl

/-- **Only JSON is read.** -/
theorem isJson_of_ofText? {t : Term} {text : List Char} (h : Term.ofText? text = some t) :
    IsJson t text := by
  obtain ⟨⟨t', rest⟩, hread, h⟩ := Option.bind_eq_some_iff.mp h
  dsimp only at h
  split at h
  · next hrest =>
    obtain rfl := Option.some.inj h
    obtain ⟨g, body, hg, hbody, rfl⟩ := (spelled_of_read _).1 _ _ _ hread
    obtain ⟨g', hg', hgap⟩ := exists_skipped rest
    rw [List.isEmpty_iff.mp hrest, List.append_nil] at hgap
    exact ⟨g, body, rest, hg, hbody, hgap ▸ hg', rfl⟩
  · cases h

end SingleFile.Json
