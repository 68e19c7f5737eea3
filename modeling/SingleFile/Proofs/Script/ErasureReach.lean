/-
  SingleFile.Proofs.Script.ErasureReach — ERASED PARTS DO NOT OVERLAP
  ───────────────────────────────────────────────────────────────────
  Where a tree fits its text, the actions that take the types out of it stand
  in its reach and are settled.  A member of a class is cut at words that are
  looked for backwards, so it needs a floor that they stop at: the member in
  front of it, or the brace of the class.

  Main results:
    * `member_settled`, `constructor_settled` — members that stay.
    * `class_settled` — a class, from its first word to its last member.
    * `erase_step` — what one node adds to its parts.  The step.
    * `erase_settled` — a tree that fits its text.  The run.
-/
import SingleFile.Proofs.Script.Reach

namespace SingleFile.Script

open SingleFile.Text

variable {source : List Char} {n c : Node} {nodes : List Node} {lo hi : Nat}

/-! ## §1. Members of a class -/

theorem lookBetween_quiet (floor key : Nat) : ∀ a ∈ lookBetween floor key, a.range? = none := by
  simp [lookBetween, Action.range?]

theorem blankModifiers_settled {floor key least : Nat} (hle : floor ≤ key)
    (hfloor : IsFloor source floor key least) :
    SettledIn least key (blankModifiers source floor key) := by
  refine .behind_quiet (lookBetween_quiet floor key) ⟨fun a ha r hr => ?_, ?_⟩
  · obtain ⟨m, hm, rfl⟩ := List.mem_map.mp ha
    obtain ⟨-, rfl⟩ := Action.range?_blank hr
    have hbounds := modifiersBetween_bounds hle hfloor (List.mem_filter.mp hm).1
    exact ⟨hbounds.1, hbounds.2.2⟩
  · refine List.pairwise_map.mpr
      (((modifiersBetween_apart source floor key).filter _).imp fun {a b} hab => ?_)
    refine .inl (Action.blank_apart fun r hr => .inl ?_)
    obtain ⟨-, rfl⟩ := Action.range?_blank hr
    exact hab

/-- A member that is blanked as a whole is blanked from its first modifier on. -/
theorem blankMember_settled {floor key least : Nat} {member : Span} (hle : floor ≤ key)
    (hfloor : IsFloor source floor key least) (hstart : least ≤ member.start) :
    SettledIn least member.stop (blankMember source floor key member) := by
  refine .behind_quiet (lookBetween_quiet floor key) (.blank ?_ (Nat.le_refl _))
  split
  · next m hm =>
    exact Nat.le_min.mpr
      ⟨(modifiersBetween_bounds hle hfloor (List.mem_of_getLast? hm)).1, hstart⟩
  · exact hstart

/-- Behind a key there is at most one mark, which may be looked for twice. -/
theorem blankMemberMarks_cases (source : List Char) (marks : MemberMarks) :
    ∃ looks one, (∀ a ∈ looks, a.range? = none) ∧
      (blankMemberMarks source marks).Perm (looks ++ one) ∧
      (one = [] ∨ (marks.isOptional = true ∧ one = blankMark source marks.key.stop "?") ∨
        (marks.isDefinite = true ∧ one = blankMark source marks.key.stop "!")) := by
  have hquiet (isMarked : Bool) : ∀ a ∈ (if isMarked = true then
      [Action.look (skipBlanks source marks.key.stop)] else []), a.range? = none := by
    cases isMarked <;> simp [Action.range?]
  unfold blankMemberMarks
  rcases blankMark_or source marks.key.stop with hnone | hnone <;> rw [hnone]
  · refine ⟨_, _, hquiet _, .refl _, ?_⟩
    cases marks.isDefinite <;> simp
  · refine ⟨_, _, hquiet _, List.perm_append_comm, ?_⟩
    cases marks.isOptional <;> simp

/-- A mark behind an offset, and parts in front of it or behind it. -/
theorem markInPlace_settled {offset least : Nat} {mark : String}
    (hmark : MarkInPlace source offset mark hi n.children) (hleast : least ≤ offset)
    (h : n.IsSound source) (hbelow : SettledIn least hi (eraseAll source n.children)) :
    SettledIn least hi (blankMark source offset mark ++ eraseAll source n.children) := by
  obtain ⟨hhi, hparts⟩ := hmark
  refine .append_of_settled ((blankMark_settled source offset mark).mono hleast hhi) hbelow
    fun a ha b hb => ?_
  obtain ⟨c, hc, -, hsilent, hinside⟩ := h.exists_inside hb
  rcases hparts c hc with hc | hc | hc
  · exact .inl (Action.apart_of_range? (hsilent hc))
  · exact .inl (blankMark_apart (fun r hr => .inl ((hinside r hr).2.trans hc)) a ha)
  · exact .inl (blankMark_apart (fun r hr => .inr (hc.trans (hinside r hr).1)) a ha)

/-- **A member that stays**: its modifiers, its marks, and what is below it. -/
theorem member_settled {marks : MemberMarks} {floor least : Nat} (hwhole : n.isWhole = true)
    (hplace : MemberInPlace source marks n) (h : n.IsSound source) (hfloor : floor ≤ n.start)
    (hleast : least ≤ n.start) (hfound : IsFloor source floor marks.key.start least) :
    SettledIn least n.stop (blankModifiers source floor marks.key.start
      ++ blankMemberMarks source marks ++ eraseBelow source n) := by
  obtain ⟨hstart, hkey, hstop, hparts, hoptional, hdefinite⟩ := hplace
  obtain ⟨-, hend, -⟩ := reach_of_isWhole source hwhole
  have hbelow : SettledIn marks.key.start n.stop (eraseAll source n.children) :=
    (h.below_from hparts).mono (Nat.le_refl _) hend.le
  have hmarked : SettledIn marks.key.start n.stop
      (blankMemberMarks source marks ++ eraseAll source n.children) := by
    obtain ⟨looks, one, hlooks, hperm, hone⟩ := blankMemberMarks_cases source marks
    refine SettledIn.perm ?_ (hperm.append_right _).symm
    rw [List.append_assoc]
    refine .behind_quiet hlooks ?_
    rcases hone with rfl | ⟨hmark, rfl⟩ | ⟨hmark, rfl⟩
    · exact hbelow
    · exact markInPlace_settled (hoptional hmark) hkey h hbelow
    · exact markInPlace_settled (hdefinite hmark) hkey h hbelow
  rw [eraseBelow_eq, List.append_assoc]
  exact (blankModifiers_settled (hfloor.trans hstart) hfound).append hmarked
    (hleast.trans hstart) (hkey.trans hstop)

/-! ## §2. Constructors -/

/-- An insertion that is inside of no part of a node. -/
theorem insertion_settled {offset : Nat} (h : n.IsSound source)
    (hbelow : SettledIn lo hi (eraseAll source n.children)) (hlo : lo ≤ offset) (hhi : offset ≤ hi)
    (hparts : ∀ c ∈ n.children, c.isSilent = true ∨ c.endsAt source ≤ offset ∨ offset ≤ c.startsAt)
    (text : String) : SettledIn lo hi (eraseAll source n.children ++ [.insert offset text]) := by
  refine hbelow.append_of_settled (.insert hlo hhi) fun b hb a ha => ?_
  obtain rfl := List.mem_singleton.mp ha
  obtain ⟨c, hc, -, hsilent, hinside⟩ := h.exists_inside hb
  rcases hparts c hc with hc' | hc' | hc'
  · exact (Action.apart_of_range? (hsilent hc')).settled.symm
  · exact (Action.insert_apart fun r hr => .inl ((hinside r hr).2.trans hc')).settled.symm
  · exact (Action.insert_apart fun r hr => .inr (hc'.trans (hinside r hr).1)).settled.symm

/-- The end of one part of a node is inside of no part. -/
theorem stop_apart {part : Node} (h : n.IsSound source) (hpart : part ∈ n.children)
    (hwhole : part.isWhole = true) (hc : c ∈ n.children) :
    c.isSilent = true ∨ c.endsAt source ≤ part.stop ∨ part.stop ≤ c.startsAt := by
  obtain ⟨hstart, hend, hloud⟩ := reach_of_isWhole source hwhole
  have hordered : part.start ≤ part.stop := (h.partPlace hpart).ordered
  by_cases hsame : c = part
  · subst hsame
    exact .inr (.inl hend.le)
  · rcases h.place.apart.forall hc hpart hsame with hc' | hc' | hc' | hc'
    · exact .inl hc'
    · rw [hloud] at hc'
      exact Bool.noConfusion hc'
    · exact .inr (.inl (by omega))
    · exact .inr (.inr (by omega))

theorem isWhole_of_isSuperCall (h : isSuperCall n = true) : n.isWhole = true := by
  unfold isSuperCall at h
  split at h
  · rfl
  · exact Bool.noConfusion h

/-- A body, with the assignments of the declared fields at its start or behind the call of the
superclass's constructor. -/
theorem body_settled (hkind : n.kind = .block) (h : n.IsSound source) (hbody : n.start < n.stop)
    (hbrace : ∀ c ∈ n.children, c.isSilent = true ∨ n.start < c.start) (text : String) :
    SettledIn n.start n.stop (eraseBelow source n ++ insertAssignments source text n) := by
  obtain ⟨hstart, hend, -⟩ := reach_of_isWhole source
    (show n.isWhole = true by rw [Node.isWhole, hkind])
  have hbelow := h.below
  rw [hstart, hend] at hbelow
  rw [eraseBelow_eq]
  unfold insertAssignments
  split
  · rw [List.append_nil]
    exact hbelow
  · split
    · next call hcall =>
      have hmem := List.mem_of_find?_eq_some hcall
      have hwhole := isWhole_of_isSuperCall (List.find?_some hcall)
      have hordered : call.start ≤ call.stop := (h.partPlace hmem).ordered
      have hin := h.inReach_of_isWhole hmem hwhole
      rw [hstart, hend] at hin
      refine SettledIn.perm (.look ?_) List.perm_middle.symm
      exact insertion_settled h hbelow (hin.1.trans hordered) hin.2
        (fun c hc => stop_apart h hmem hwhole hc) _
    · refine insertion_settled h hbelow (Nat.le_succ _) hbody (fun c hc => ?_) _
      rcases hbrace c hc with hsilent | hlt
      · exact .inl hsilent
      · exact .inr (.inr (Nat.le_trans hlt (h.partPlace hc).start_le_startsAt))

/-- A parameter that declares a field: its modifiers go, and its pattern stays. -/
theorem paramProperty_settled (hkind : n.kind = .paramProperty) (h : n.IsSound source)
    {floor : Nat} (hfloor : floor ≤ n.start) :
    SettledIn floor n.stop
      (blankModifiers source floor ((n.children.getLast?.map Node.start).getD n.start)
        ++ eraseBelow source n) := by
  obtain ⟨-, hend, -⟩ := reach_of_isWhole source
    (show n.isWhole = true by rw [Node.isWhole, hkind])
  obtain ⟨hsilent, hpattern⟩ : PatternLast n := by
    have hwords := h.place.words
    rw [Node.WordsInPlace, hkind] at hwords
    exact hwords
  have hordered : n.start ≤ n.stop := h.place.ordered
  rw [eraseBelow_eq]
  cases hlast : n.children.getLast? with
  | none =>
    rw [List.getLast?_eq_none_iff.mp hlast, eraseAll, List.append_nil]
    exact (blankModifiers_settled hfloor (.inl (Nat.le_refl _))).mono (Nat.le_refl _) hordered
  | some pattern =>
    obtain ⟨hfrom, hto⟩ := hpattern pattern hlast
    have hkey : floor ≤ pattern.start := hfloor.trans hfrom
    have hbelow : SettledIn pattern.start (n.endsAt source) (eraseAll source n.children) := by
      refine h.below_from fun c hc => ?_
      have hmem := hc
      rw [← List.dropLast_append_getLast? _ hlast] at hmem
      rcases List.mem_append.mp hmem with hfront | hself
      · exact .inl (hsilent c hfront)
      · obtain rfl := List.mem_singleton.mp hself
        exact .inr (h.partPlace hc).start_le_startsAt
    exact (blankModifiers_settled hkey (.inl (Nat.le_refl _))).append
      (hbelow.mono (Nat.le_refl _) hend.le) hkey hto

/-- What is no part of a constructor changes nothing in it. -/
theorem eraseParameters_cons_of_not_part (source : List Char) (floor : Nat) (rest : List Node)
    (h : isConstructorPart n = false) :
    eraseParameters source floor (n :: rest) = eraseParameters source floor rest ∧
      (n :: rest).filter (fun c => c.kind == .block) = rest.filter fun c => c.kind == .block := by
  rw [eraseParameters, List.filter_cons]
  unfold isConstructorPart at h
  cases hkind : n.kind <;> rw [hkind] at h <;>
    first | exact Bool.noConfusion h | exact ⟨rfl, rfl⟩

/-- Without parameters and a body there is nothing to be done in a constructor. -/
theorem eraseParameters_of_no_part (source : List Char) (floor : Nat) {nodes : List Node}
    (h : nodes.filter isConstructorPart = []) :
    eraseParameters source floor nodes = [] ∧
      (nodes.filter fun c => c.kind == .block) = [] := by
  induction nodes with
  | nil => exact ⟨rfl, rfl⟩
  | cons n rest ih =>
    obtain ⟨hn, hrest⟩ := List.forall_mem_cons.mp (List.filter_eq_nil_iff.mp h)
    obtain ⟨hsame, hblocks⟩ :=
      eraseParameters_cons_of_not_part source floor rest (Bool.eq_false_iff.mpr hn)
    rw [hsame, hblocks]
    exact ih (List.filter_eq_nil_iff.mpr hrest)

/-- What is done for one parameter stands between the floor and its end, which is the floor of the
next one. -/
theorem parameter_settled (hpart : isConstructorPart n = true) (hblock : n.kind ≠ .block)
    (h : n.IsSound source) {floor : Nat} (hfloor : floor ≤ n.start) :
    ∃ own, SettledIn floor n.stop own ∧
      ∀ rest, eraseParameters source floor (n :: rest)
        = own ++ eraseParameters source n.stop rest := by
  cases hkind : n.kind with
  | param =>
    refine ⟨eraseBelow source n, ?_, fun rest => by rw [eraseParameters, hkind]⟩
    obtain ⟨hstart, hend, -⟩ := reach_of_isWhole source (isWhole_of_param hkind)
    rw [eraseBelow_eq]
    exact h.below.mono (hstart ▸ hfloor) hend.le
  | paramProperty =>
    exact ⟨_, paramProperty_settled hkind h hfloor, fun rest => by rw [eraseParameters, hkind]⟩
  | block => exact absurd hkind hblock
  | _ =>
    rw [isConstructorPart, hkind] at hpart
    exact Bool.noConfusion hpart

/-- The parameters of a constructor one behind another, and then its body. -/
theorem eraseParameters_settled {floor : Nat} (text : String) (hle : floor ≤ hi)
    (hsound : ∀ p ∈ nodes.filter isConstructorPart, p.IsSound source)
    (hplace : ∀ p ∈ nodes.filter isConstructorPart, floor ≤ p.start ∧ p.stop ≤ hi)
    (horder : (nodes.filter isConstructorPart).Pairwise
      fun a b => a.kind ≠ .block ∧ a.endsAt source ≤ b.start)
    (hbody : ∀ b ∈ nodes, b.kind = .block → b.start < b.stop ∧
      ∀ c ∈ b.children, c.isSilent = true ∨ b.start < c.start) :
    SettledIn floor hi (eraseParameters source floor nodes
      ++ (nodes.filter fun c => c.kind == .block).flatMap (insertAssignments source text)) := by
  -- The floor moves with each parameter; behind the body there is nothing more.
  induction nodes generalizing floor with
  | nil => exact .nil
  | cons n rest ih =>
    have hlater := fun b hb => hbody b (List.mem_cons_of_mem _ hb)
    cases hpart : isConstructorPart n with
    | false =>
      obtain ⟨hsame, hblocks⟩ := eraseParameters_cons_of_not_part source floor rest hpart
      rw [List.filter_cons_of_neg (Bool.eq_false_iff.mp hpart)] at hsound hplace horder
      rw [hsame, hblocks]
      exact ih hle hsound hplace horder hlater
    | true =>
      rw [List.filter_cons_of_pos hpart] at hsound hplace horder
      obtain ⟨hself, hsound⟩ := List.forall_mem_cons.mp hsound
      obtain ⟨⟨hfloor, hhi⟩, hplace⟩ := List.forall_mem_cons.mp hplace
      obtain ⟨hfirst, horder⟩ := List.pairwise_cons.mp horder
      by_cases hblock : n.kind = .block
      · have hlast : rest.filter isConstructorPart = [] :=
          List.eq_nil_iff_forall_not_mem.mpr fun p hp => (hfirst p hp).1 hblock
        obtain ⟨hnone, hblocks⟩ := eraseParameters_of_no_part source floor hlast
        obtain ⟨hopen, hbrace⟩ := hbody n (List.mem_cons_self ..) hblock
        rw [List.filter_cons_of_pos (by rw [hblock]; rfl), hblocks, List.flatMap_singleton,
          eraseParameters, hblock]
        dsimp only
        rw [hnone, List.append_nil]
        exact (body_settled hblock hself hopen hbrace text).mono hfloor hhi
      · obtain ⟨own, hown, hactions⟩ := parameter_settled hpart hblock hself hfloor
        obtain ⟨-, hend, -⟩ := reach_of_isWhole source (isWhole_of_isConstructorPart hpart)
        rw [hactions, List.filter_cons_of_neg (by simpa using hblock), List.append_assoc]
        refine hown.append ?_ (hfloor.trans hself.place.ordered) hhi
        exact ih hhi hsound (fun p hp => ⟨hend.ge.trans (hfirst p hp).2, (hplace p hp).2⟩) horder
          hlater

/-- **A constructor that stays**: the modifiers in front of its name and of the parameters that
declare fields go, and the fields get their values in the body. -/
theorem constructor_settled {marks : MemberMarks} {floor least : Nat}
    (hkind : n.kind = .constructorMember marks) (hplace : MemberInPlace source marks n)
    (hconstructor : ConstructorInPlace source marks n) (h : n.IsSound source)
    (hsound : ∀ p ∈ n.children.filter isConstructorPart, p.IsSound source)
    (hfloor : floor ≤ n.start) (hleast : least ≤ n.start)
    (hfound : IsFloor source floor marks.key.start least) :
    SettledIn least n.stop
      (blankModifiers source floor marks.key.start ++ eraseConstructor source marks n) := by
  obtain ⟨hstart, hkey, hstop, -⟩ := hplace
  obtain ⟨hbehind, horder, hbody⟩ := hconstructor
  obtain ⟨-, hend, -⟩ := reach_of_isWhole source
    (show n.isWhole = true by rw [Node.isWhole, hkind])
  have hparts : SettledIn marks.key.stop n.stop (eraseConstructor source marks n) := by
    obtain ⟨kind, span, children⟩ := n
    refine eraseParameters_settled (fieldAssignments children) hstop hsound (fun p hp => ?_) horder
      hbody
    obtain ⟨hp', hpart⟩ := List.mem_filter.mp hp
    have hin := h.inReach_of_isWhole hp' (isWhole_of_isConstructorPart hpart)
    exact ⟨hbehind p hp, hin.2.trans hend.le⟩
  exact (blankModifiers_settled (hfloor.trans hstart) hfound).append
    (hparts.mono hkey (Nat.le_refl _)) (hleast.trans hstart) (hkey.trans hstop)

/-! ## §3. Classes -/

/-- Whether the trees that a walk enters from a member of a class are sound. -/
structure Node.IsSoundMember (source : List Char) (n : Node) : Prop where
  sound : n.IsSound source
  parts : ∀ p ∈ n.children.filter isConstructorPart, p.IsSound source

/-- **One member of a class**, which stands behind the floor. -/
theorem partActions_settled {floor least : Nat} (hmember : isMember n = true)
    (h : n.IsSoundMember source) (hfloor : floor ≤ n.start) (hleast : least ≤ n.start)
    (hfound : IsFloor source floor n.start least) :
    SettledIn least n.stop (partActions source floor n) := by
  have hwords := h.sound.place.words
  have hordered : n.start ≤ n.stop := h.sound.place.ordered
  have hbelow (hwhole : n.isWhole = true) : SettledIn least n.stop (eraseBelow source n) := by
    obtain ⟨hstart, hend, -⟩ := reach_of_isWhole source hwhole
    rw [eraseBelow_eq]
    exact h.sound.below.mono (hstart ▸ hleast) hend.le
  -- A member that goes as a whole goes from its first modifier on.
  have hwholeMember {marks : MemberMarks} (hplace : MemberInPlace source marks n) :
      SettledIn least n.stop (blankMember source floor marks.key.start n.span) :=
    blankMember_settled (hfloor.trans hplace.1) (hfound.mono hplace.1) hleast
  unfold partActions
  cases hkind : n.kind with
  | constructorMember marks =>
    rw [Node.WordsInPlace, hkind] at hwords
    dsimp only
    split
    · exact constructor_settled hkind hwords.1 hwords.2 h.sound h.parts hfloor hleast
        (hfound.mono hwords.1.1)
    · exact hwholeMember hwords.1
  | methodMember isPrivate marks =>
    rw [Node.WordsInPlace, hkind] at hwords
    dsimp only
    split
    · exact hwholeMember hwords
    · exact member_settled (by rw [Node.isWhole, hkind]) hwords h.sound hfloor hleast
        (hfound.mono hwords.1)
  | fieldMember isPrivate marks =>
    rw [Node.WordsInPlace, hkind] at hwords
    dsimp only
    split
    · exact hwholeMember hwords
    · exact member_settled (by rw [Node.isWhole, hkind]) hwords h.sound hfloor hleast
        (hfound.mono hwords.1)
  | indexSignature => exact blankMember_settled hfloor hfound hleast
  | accessorMember => exact hbelow (by rw [Node.isWhole, hkind])
  | staticBlock => exact hbelow (by rw [Node.isWhole, hkind])
  | emptyMember => exact .nil
  | _ =>
    rw [isMember, hkind] at hmember
    exact Bool.noConfusion hmember

/-- A part of a class is a member, a type that the class promises to fit, or stands in front of
both. -/
theorem part_cases (source : List Char) (floor : Nat) (n : Node) :
    (isMember n = true ∧ floorBehind floor n = n.stop) ∨
      (isMember n = false ∧ floorBehind floor n = floor ∧
        ((isHeritage n = true ∧ partActions source floor n = []) ∨
          (isHeritage n = false ∧ partActions source floor n = erase source n))) := by
  unfold isMember floorBehind partActions isHeritage
  cases n.kind <;> simp

/-- What is in front of the members can be done in front of them. -/
theorem eraseParts_perm (source : List Char) (floor : Nat) (nodes : List Node) :
    (eraseParts source floor nodes).Perm
      (eraseAll source (nodes.filter fun c => !isMember c && !isHeritage c)
        ++ eraseParts source floor (nodes.filter isMember)) := by
  induction nodes generalizing floor with
  | nil => exact .refl _
  | cons n rest ih =>
    rw [eraseParts_cons, List.filter_cons, List.filter_cons]
    rcases part_cases source floor n with ⟨hmember, hfloor⟩ |
      ⟨hmember, hfloor, ⟨hheritage, hactions⟩ | ⟨hheritage, hactions⟩⟩
    · rw [hmember, hfloor, Bool.not_true, Bool.false_and, if_neg Bool.false_ne_true, if_pos rfl,
        eraseParts_cons, hfloor]
      exact ((ih n.stop).append_left _).trans (List.perm_append_comm_assoc ..)
    · rw [hmember, hheritage, hactions, hfloor, Bool.not_true, Bool.and_false,
        if_neg Bool.false_ne_true, if_neg Bool.false_ne_true, List.nil_append]
      exact ih floor
    · rw [hmember, hheritage, hactions, hfloor, Bool.not_false, Bool.and_true, if_pos rfl,
        if_neg Bool.false_ne_true, eraseAll, List.append_assoc]
      exact (ih floor).append_left _

/-- The members of a class one behind another. -/
theorem members_settled {floor least : Nat} (hle : least ≤ hi)
    (hmembers : ∀ m ∈ nodes, isMember m = true ∧ m.IsSoundMember source)
    (horder : nodes.Pairwise fun a b => a.stop ≤ b.start)
    (hplace : ∀ m ∈ nodes, floor ≤ m.start ∧ least ≤ m.start ∧ m.stop ≤ hi)
    (hfound : ∀ m ∈ nodes, IsFloor source floor m.start least) :
    SettledIn least hi (eraseParts source floor nodes) := by
  -- A member stands behind the one in front of it, the first one behind the brace.
  induction nodes generalizing floor least with
  | nil => exact .nil
  | cons m rest ih =>
    obtain ⟨⟨hmember, hsound⟩, hmembers⟩ := List.forall_mem_cons.mp hmembers
    obtain ⟨hfirst, horder⟩ := List.pairwise_cons.mp horder
    obtain ⟨⟨hfloor, hleast, hhi⟩, hplace⟩ := List.forall_mem_cons.mp hplace
    obtain ⟨hself, -⟩ := List.forall_mem_cons.mp hfound
    have hstop : floorBehind floor m = m.stop := by
      rcases part_cases source floor m with ⟨-, h⟩ | ⟨hother, -⟩
      · exact h
      · rw [hmember] at hother
        exact Bool.noConfusion hother
    have hordered : m.start ≤ m.stop := hsound.sound.place.ordered
    rw [eraseParts_cons, hstop]
    refine (partActions_settled hmember hsound hfloor hleast hself).append ?_
      (hleast.trans hordered) hhi
    exact ih hhi hmembers horder (fun p hp => ⟨hfirst p hp, hfirst p hp, (hplace p hp).2.2⟩)
      fun p _ => .inl (Nat.le_refl _)

/-- The types that a class promises to fit, behind all else in front of its members. -/
theorem heading_settled {start brace : Nat} {heading heritage : List Node}
    (hreach : ∀ c ∈ heading, c.KeepsToReach source)
    (hapart : heading.Pairwise (Node.StandsApart source))
    (hstart : ∀ c ∈ heading, c.isSilent = true ∨ start ≤ c.startsAt)
    (hstop : ∀ c ∈ heading, c.isSilent = true ∨ c.endsAt source ≤ brace)
    (hplace : HeritageInPlace source start brace heading heritage) :
    SettledIn start brace (eraseAll source heading ++ blankHeritage source heritage) := by
  have hbelow {limit : Nat} (h : ∀ c ∈ heading, c.isSilent = true ∨ c.endsAt source ≤ limit) :
      SettledIn start limit (eraseAll source heading) := by
    refine eraseAll_settled hreach hapart fun c hc => ?_
    rcases hstart c hc with hsilent | hfrom
    · exact .inl hsilent
    · exact (h c hc).imp_right fun hto => ⟨hfrom, hto⟩
  unfold HeritageInPlace at hplace
  unfold blankHeritage
  split
  · next first last hfirst hlast =>
    rw [hfirst, hlast] at hplace
    obtain ⟨word, hword, hstands, hbehind, hfrom, hordered, hto, hfront⟩ := hplace
    have hfound : word ≤ (keywordBefore? source first.start "implements").getD first.start := by
      cases hkeyword : keywordBefore? source first.start "implements" with
      | none => exact hword.le
      | some found =>
        exact le_of_keywordBefore? rfl (by decide) (by decide) hstands hbehind hkeyword
    exact (hbelow hfront).append (.look (.blank hfound hto)) hfrom
      ((hword.le.trans hordered).trans hto)
  · rw [List.append_nil]
    exact hbelow hstop

/-- **A class**: the word in front of it, what is in front of its members, and its members. -/
theorem class_settled {isAbstract : Bool} (hkind : n.kind = .classBody isAbstract)
    (h : n.IsSound source)
    (hmembers : ∀ m ∈ n.children, isMember m = true → m.IsSoundMember source) :
    SettledIn n.startsAt (n.endsAt source)
      (classActions source isAbstract n.span n.children
        ++ eraseParts source n.start n.children) := by
  obtain ⟨kind, span, children⟩ := n
  obtain rfl : kind = .classBody isAbstract := hkind
  obtain ⟨hle, hheading, horder, brace, hbrace, hstands, hstart, hfront, hbehind, hheritage⟩ :
    ClassInPlace source isAbstract (.mk (.classBody isAbstract) span children) := h.place.words
  show SettledIn span.start span.stop (((if isAbstract then blankAbstract source span.start else [])
    ++ blankHeritage source (children.filter isHeritage)) ++ eraseParts source span.start children)
  have hword : SettledIn span.start (if isAbstract then span.start + 8 else span.start)
      (if isAbstract then blankAbstract source span.start else []) := by
    cases isAbstract with
    | false => exact .nil
    | true =>
      have hbegins : standsAt source span.start "abstract" = true := h.place.begins _ rfl
      rw [if_pos rfl, if_pos rfl, blankAbstract, if_pos hbegins]
      exact .look (.blank (Nat.le_refl _) (Nat.le_refl _))
  have hsub {c : Node} {p : Node → Bool} (hc : c ∈ children.filter p) : c ∈ children :=
    (List.mem_filter.mp hc).1
  have hfrom : span.start ≤ if isAbstract then span.start + 8 else span.start := by
    split
    · exact Nat.le_add_right ..
    · exact Nat.le_refl _
  have hhead := heading_settled (fun c hc => h.reach c (hsub hc)) (h.place.apart.filter _)
    hheading hfront hheritage
  have hbody : SettledIn (brace + 1) span.stop
      (eraseParts source span.start (children.filter isMember)) := by
    have hplace : ∀ m ∈ children.filter isMember,
        span.start ≤ m.start ∧ brace + 1 ≤ m.start ∧ m.stop ≤ span.stop := by
      intro m hm
      have hbefore : brace < m.start := hbehind m hm
      have hwhole := isWhole_of_isMember (List.mem_filter.mp hm).2
      refine ⟨(hfrom.trans hstart).trans hbefore.le, hbefore, ?_⟩
      exact (h.inReach_of_isWhole (hsub hm) hwhole).2
    refine members_settled hbrace (fun m hm => ?_) horder hplace fun m hm => ?_
    · exact ⟨(List.mem_filter.mp hm).2, hmembers m (hsub hm) (List.mem_filter.mp hm).2⟩
    · exact .inr ⟨brace, (hplace m hm).2.1, hstands, Nat.le_refl _⟩
  refine (hword.append (hhead.append (hbody.mono (Nat.le_succ _) (Nat.le_refl _)) hstart
    hbrace.le) hfrom hle).perm (.symm ?_)
  -- In the order of the visit the types that are promised come before what is in front of them.
  refine ((eraseParts_perm source span.start children).append_left _).trans ?_
  rw [List.append_assoc, List.append_assoc]
  exact (List.perm_append_comm_assoc ..).append_left _

/-! ## §4. The step and the run -/

theorem extendedStart_of_standsAt {start : Nat} {word : String}
    (h : standsAt source start word = true) : extendedStart source start word = start :=
  if_pos h

/-- A declaration begins with the word that the tree leaves out. -/
theorem declarationStart_eq (h : n.InPlace source) : declarationStart source n = n.start := by
  have hbegins := h.begins
  unfold Node.word? at hbegins
  unfold declarationStart
  split
  · next word hword =>
    refine extendedStart_of_standsAt (hbegins word ?_)
    unfold leadingWord? at hword
    split at hword <;> next hkind => first
      | (rw [hkind]; exact hword)
      | exact absurd hword (by simp)
  · rfl

theorem lookInFront_quiet (n : Node) : ∀ a ∈ lookInFront n, a.range? = none := by
  unfold lookInFront
  cases leadingWord? n.kind <;> simp [Action.range?]

/-- An enum is replaced where it stands. -/
theorem replaceEnum_settled (hwhole : n.isWhole = true) (hvalue : isTypeOnly n = false)
    (h : n.InPlace source) : SettledIn n.startsAt (n.endsAt source) (replaceEnum source n) := by
  obtain ⟨hstart, hend, -⟩ := reach_of_isWhole source hwhole
  rw [hstart, hend]
  obtain ⟨kind, span, children⟩ := n
  unfold replaceEnum
  dsimp only [Node.kind]
  split
  · next name isDeclared isConst =>
    obtain rfl : isDeclared = false := hvalue
    refine .replace ?_ (Nat.le_refl _)
    cases isConst with
    | false => exact Nat.le_refl _
    | true => exact (extendedStart_of_standsAt (h.begins _ rfl)).ge
  · exact .nil

/-- What a walk relies on in a tree: it is laid out, and what is below it keeps to its reach. -/
theorem isSound_of_isLaidOut (h : isLaidOut source n = true) (hvalue : isTypeOnly n = false)
    (ih : ∀ m ∈ subtreesOf n.children, isLaidOut source m = true → m.KeepsToReach source) :
    n.IsSound source := by
  obtain ⟨hplace, hparts⟩ := isLaidOut_iff.mp h
  rw [hvalue] at hparts
  have hparts := hparts.resolve_left Bool.false_ne_true
  exact ⟨hplace, hparts, fun c hc => ih c (mem_subtreesOf_of_mem hc) (hparts c hc)⟩

theorem not_isDeclaration_of_isMember (h : isMember n = true) : n.kind.isDeclaration = false := by
  unfold isMember at h
  cases hkind : n.kind <;> rw [hkind] at h <;> first | rfl | exact Bool.noConfusion h

theorem not_isDeclaration_of_isConstructorPart (h : isConstructorPart n = true) :
    n.kind.isDeclaration = false := by
  unfold isConstructorPart at h
  cases hkind : n.kind <;> rw [hkind] at h <;> first | rfl | exact Bool.noConfusion h

theorem isSoundMember_of_isLaidOut (hmember : isMember n = true) (h : isLaidOut source n = true)
    (ih : ∀ m ∈ subtreesOf n.children, isLaidOut source m = true → m.KeepsToReach source) :
    n.IsSoundMember source := by
  have hsound := isSound_of_isLaidOut h
    (isTypeOnly_eq_false (not_isDeclaration_of_isMember hmember)) ih
  refine ⟨hsound, fun p hp => ?_⟩
  obtain ⟨hp, hpart⟩ := List.mem_filter.mp hp
  exact isSound_of_isLaidOut (hsound.parts p hp)
    (isTypeOnly_eq_false (not_isDeclaration_of_isConstructorPart hpart)) fun m hm =>
      ih m (subtreesOf_children_of_mem_subtreesOf _ (mem_subtreesOf_of_mem hp) hm)

/-- **What one node adds to its parts** stands in its reach and is settled with them.  The step. -/
theorem erase_step (h : isLaidOut source n = true)
    (ih : ∀ m ∈ subtreesOf n.children, isLaidOut source m = true → m.KeepsToReach source) :
    n.KeepsToReach source := by
  obtain ⟨hplace, -⟩ := isLaidOut_iff.mp h
  cases hvalue : isTypeOnly n with
  | true =>
    have hdeclaration : n.kind.isDeclaration = true := by
      by_contra hno
      rw [isTypeOnly_eq_false (Bool.eq_false_iff.mpr hno)] at hvalue
      exact Bool.noConfusion hvalue
    obtain ⟨hstart, hend, -⟩ := reach_of_isWhole source (isWhole_of_isDeclaration hdeclaration)
    obtain ⟨kind, span, children⟩ := n
    unfold Node.KeepsToReach erase
    dsimp only
    rw [if_pos hvalue, hstart, hend, blankDeclaration, declarationStart_eq hplace]
    exact .behind_quiet (lookInFront_quiet _) (.blank (Nat.le_refl _) (Nat.le_refl _))
  | false =>
    have hsound := isSound_of_isLaidOut h hvalue ih
    obtain ⟨kind, span, children⟩ := n
    unfold Node.KeepsToReach erase
    dsimp only
    rw [hvalue, if_neg Bool.false_ne_true]
    cases kind with
    | enumDecl name isDeclared isConst =>
      exact .behind_quiet (lookInFront_quiet _) (replaceEnum_settled rfl hvalue hplace)
    | moduleDecl isDeclared => exact .single fun r hr => by simp [Action.range?] at hr
    | decorator => exact .single fun r hr => by simp [Action.range?] at hr
    | typeClause => exact .blank (Nat.le_refl _) (Nat.le_refl _)
    | typeParameters => exact .blank (Nat.le_refl _) (Nat.le_refl _)
    | typeArguments => exact .blank (Nat.le_refl _) (Nat.le_refl _)
    | asType => exact blankBehind_settled rfl hplace.words hsound
    | satisfies => exact blankBehind_settled rfl hplace.words hsound
    | constAssertion => exact blankBehind_settled rfl hplace.words hsound
    | nonNull => exact blankBehind_settled rfl hplace.words hsound
    | typeAssertion => exact blankInFront_settled rfl hplace.words hsound
    | classBody isAbstract =>
      refine class_settled rfl hsound fun m hm hmember => ?_
      exact isSoundMember_of_isLaidOut hmember (hsound.parts m hm) fun c hc =>
        ih c (subtreesOf_children_of_mem_subtreesOf _ (mem_subtreesOf_of_mem hm) hc)
    | function isAsync isGenerator has => exact function_settled rfl hsound
    | binding name isOptional => exact binding_settled rfl hsound
    | declarator isDefinite =>
      cases isDefinite with
      | true => exact declarator_settled rfl hsound
      | false => exact hsound.below
    | _ => exact hsound.below

/-- **A tree that fits its text**: the actions that take the types out of it stand in its reach and
are settled.  The run. -/
theorem erase_settled (n : Node) (h : isLaidOut source n = true) : n.KeepsToReach source := by
  refine erase_step h fun m hm hlaid => ?_
  have hsmaller := sizeOf_lt_of_mem_below hm
  exact erase_settled m hlaid
termination_by sizeOf n

end SingleFile.Script
