/-
  SingleFile.Proofs.Script.Reach — A NODE AND WHAT STANDS BELOW IT
  ────────────────────────────────────────────────────────────────
  What is done to the text for a node stands in the reach of the node.  From
  the same of its parts it follows for the node: the marks and words that are
  found in the text stand between the parts, and so each part is on its own.

  Main results:
    * `eraseAll_settled` — trees that stand apart, one after another.
    * `binding_settled`, `declarator_settled` — names with marks behind them.
    * `function_settled` — functions, and the receiver among their parameters.
    * `blankBehind_settled`, `blankInFront_settled` — expressions with types.
-/
import SingleFile.Proofs.Script.FoundWords
import SingleFile.Proofs.Script.Settled

namespace SingleFile.Script

open SingleFile.Text

variable {source : List Char} {n c : Node} {nodes : List Node} {lo hi : Nat}

/-! ## §1. The reach of a node -/

/-- The span of most nodes is their reach. -/
theorem reach_of_isWhole (source : List Char) {n : Node} (h : n.isWhole = true) :
    n.startsAt = n.start ∧ n.endsAt source = n.stop ∧ n.isSilent = false := by
  obtain ⟨kind, span, children⟩ := n
  unfold Node.isWhole at h
  cases kind <;> first | exact Bool.noConfusion h | exact ⟨rfl, rfl, rfl⟩

theorem isWhole_of_param (h : n.kind = .param) : n.isWhole = true := by
  rw [Node.isWhole, h]

theorem isWhole_of_isMember (h : isMember n = true) : n.isWhole = true := by
  unfold isMember at h
  unfold Node.isWhole
  cases hkind : n.kind <;> rw [hkind] at h <;> first | rfl | exact Bool.noConfusion h

theorem isWhole_of_isConstructorPart (h : isConstructorPart n = true) : n.isWhole = true := by
  unfold isConstructorPart at h
  unfold Node.isWhole
  cases hkind : n.kind <;> rw [hkind] at h <;> first | rfl | exact Bool.noConfusion h

theorem isWhole_of_isDeclaration (h : n.kind.isDeclaration = true) : n.isWhole = true := by
  unfold Kind.isDeclaration at h
  unfold Node.isWhole
  cases hkind : n.kind <;> rw [hkind] at h <;> first | rfl | exact Bool.noConfusion h

theorem foldr_min_le {xs : List Node} {most : Nat} (h : c ∈ xs) :
    xs.foldr (fun x least => min x.start least) most ≤ c.start := by
  induction xs with
  | nil => exact absurd h List.not_mem_nil
  | cons x xs ih =>
    rw [List.foldr_cons]
    rcases List.mem_cons.mp h with rfl | h
    · exact Nat.min_le_left ..
    · exact (Nat.min_le_right ..).trans (ih h)

theorem le_foldr_min {xs : List Node} {least most : Nat} (hmost : least ≤ most)
    (h : ∀ x ∈ xs, least ≤ x.start) :
    least ≤ xs.foldr (fun x least => min x.start least) most := by
  induction xs with
  | nil => exact hmost
  | cons x xs ih =>
    obtain ⟨hx, hxs⟩ := List.forall_mem_cons.mp h
    rw [List.foldr_cons]
    exact Nat.le_min.mpr ⟨hx, ih hxs⟩

/-- A node does not reach in front of its span. -/
theorem Node.InPlace.start_le_startsAt (h : n.InPlace source) : n.start ≤ n.startsAt := by
  unfold Node.startsAt
  split
  · refine le_foldr_min h.ordered fun c hc => ?_
    obtain ⟨hc, hloud⟩ := List.mem_filter.mp hc
    rcases h.inside c hc with hsilent | hinside
    · rw [hsilent] at hloud
      exact Bool.noConfusion hloud
    · exact hinside.1
  · exact Nat.le_refl _

/-- A node reaches as far as its parts do. -/
theorem Node.InPlace.startsAt_le (h : n.InPlace source) (hc : c ∈ n.children)
    (hplace : c.InPlace source) (hloud : c.isSilent = false) : n.startsAt ≤ c.startsAt := by
  refine Nat.le_trans ?_ hplace.start_le_startsAt
  unfold Node.startsAt
  split
  · exact foldr_min_le (List.mem_filter.mpr ⟨hc, by rw [hloud]; rfl⟩)
  · rcases h.inside c hc with hsilent | hinside
    · rw [hsilent] at hloud
      exact Bool.noConfusion hloud
    · exact hinside.1

/-- Nothing is done to the text of a bare name or a decorator. -/
theorem erase_of_isSilent (h : n.isSilent = true) : ∀ a ∈ erase source n, a.range? = none := by
  intro a ha
  unfold Node.isSilent at h
  split at h
  · simp [erase, isTypeOnly, ownActions, eraseAll] at ha
  · simp only [erase, isTypeOnly, Bool.false_eq_true, if_false, List.mem_singleton] at ha
    rw [ha]
    rfl
  · exact Bool.noConfusion h

/-! ## §2. Trees one after another -/

instance : Std.Symm (Node.StandsApart source) where
  symm _ _ h := by
    rcases h with h | h | h | h
    · exact .inr (.inl h)
    · exact .inl h
    · exact .inr (.inr (.inr h))
    · exact .inr (.inr (.inl h))

/-- **Whether the actions for a tree stand in its reach and are settled.** -/
def Node.KeepsToReach (source : List Char) (n : Node) : Prop :=
  SettledIn n.startsAt (n.endsAt source) (erase source n)

/-- What is done for two trees that stand apart stands apart. -/
theorem Node.StandsApart.apart {m : Node} (h : n.StandsApart source m)
    (hn : n.KeepsToReach source) (hm : m.KeepsToReach source) :
    ∀ a ∈ erase source n, ∀ b ∈ erase source m, a.Apart b := by
  intro a ha b hb r hr s hs
  rcases h with h | h | h | h
  · rw [erase_of_isSilent h a ha] at hr
    simp at hr
  · rw [erase_of_isSilent h b hb] at hs
    simp at hs
  · exact hn.apart hm h a ha b hb r hr s hs
  · exact (hm.apart hn h b hb a ha s hs r hr).symm

/-- What is done for trees that stand apart is settled. -/
theorem eraseAll_pairwise (hreach : ∀ c ∈ nodes, c.KeepsToReach source)
    (hapart : nodes.Pairwise (Node.StandsApart source)) :
    (eraseAll source nodes).Pairwise Action.Settled := by
  induction nodes with
  | nil => exact .nil
  | cons n rest ih =>
    obtain ⟨hn, hreach⟩ := List.forall_mem_cons.mp hreach
    obtain ⟨hcross, hapart⟩ := List.pairwise_cons.mp hapart
    rw [eraseAll]
    refine List.pairwise_append.mpr ⟨hn.settled, ih hreach hapart, fun a ha b hb => ?_⟩
    obtain ⟨c, hc, hb⟩ := mem_eraseAll.mp hb
    exact .inl ((hcross c hc).apart hn (hreach c hc) a ha b hb)

/-- **Trees that stand apart**, one after another. -/
theorem eraseAll_settled (hreach : ∀ c ∈ nodes, c.KeepsToReach source)
    (hapart : nodes.Pairwise (Node.StandsApart source))
    (hinside : ∀ c ∈ nodes, c.isSilent = true ∨ (lo ≤ c.startsAt ∧ c.endsAt source ≤ hi)) :
    SettledIn lo hi (eraseAll source nodes) where
  inside a ha r hr := by
    obtain ⟨c, hc, ha⟩ := mem_eraseAll.mp ha
    rcases hinside c hc with hsilent | ⟨hlo, hhi⟩
    · rw [erase_of_isSilent hsilent a ha] at hr
      simp at hr
    · exact ((hreach c hc).mono hlo hhi).inside a ha r hr
  settled := eraseAll_pairwise hreach hapart

/-- The parts of a node stand in its reach. -/
theorem Node.InPlace.inReach (h : n.InPlace source) (hc : c ∈ n.children)
    (hplace : c.InPlace source) :
    c.isSilent = true ∨ (n.startsAt ≤ c.startsAt ∧ c.endsAt source ≤ n.endsAt source) := by
  cases hloud : c.isSilent with
  | true => exact .inl rfl
  | false =>
    right
    refine ⟨h.startsAt_le hc hplace hloud, ?_⟩
    rcases h.inside c hc with hsilent | hinside
    · rw [hsilent] at hloud
      exact Bool.noConfusion hloud
    · exact hinside.2

/-- Whether a node is in place, and all its parts keep to their reach. -/
structure Node.IsSound (source : List Char) (n : Node) : Prop where
  place : n.InPlace source
  parts : ∀ c ∈ n.children, isLaidOut source c = true
  reach : ∀ c ∈ n.children, c.KeepsToReach source

theorem Node.IsSound.partPlace (h : n.IsSound source) (hc : c ∈ n.children) : c.InPlace source :=
  (isLaidOut_iff.mp (h.parts c hc)).1

/-- The parts of a node that asks for nothing itself. -/
theorem Node.IsSound.below (h : n.IsSound source) :
    SettledIn n.startsAt (n.endsAt source) (eraseAll source n.children) :=
  eraseAll_settled h.reach h.place.apart fun _ hc => h.place.inReach hc (h.partPlace hc)

/-- The parts of a node of which none reaches in front of an offset. -/
theorem Node.IsSound.below_from (h : n.IsSound source)
    (hlo : ∀ c ∈ n.children, c.isSilent = true ∨ lo ≤ c.startsAt) :
    SettledIn lo (n.endsAt source) (eraseAll source n.children) := by
  refine eraseAll_settled h.reach h.place.apart fun c hc => ?_
  rcases h.place.inReach hc (h.partPlace hc) with hsilent | ⟨-, hto⟩
  · exact .inl hsilent
  · exact (hlo c hc).imp_right fun hfrom => ⟨hfrom, hto⟩

/-- The parts of a node of which none reaches behind an offset. -/
theorem Node.IsSound.below_to (h : n.IsSound source)
    (hhi : ∀ c ∈ n.children, c.isSilent = true ∨ c.endsAt source ≤ hi) :
    SettledIn n.startsAt hi (eraseAll source n.children) := by
  refine eraseAll_settled h.reach h.place.apart fun c hc => ?_
  rcases h.place.inReach hc (h.partPlace hc) with hsilent | ⟨hfrom, -⟩
  · exact .inl hsilent
  · exact (hhi c hc).imp_right fun hto => ⟨hfrom, hto⟩

/-- A part that reaches no farther than its span stands in the reach of the node. -/
theorem Node.IsSound.inReach_of_isWhole (h : n.IsSound source) (hc : c ∈ n.children)
    (hwhole : c.isWhole = true) : n.startsAt ≤ c.start ∧ c.stop ≤ n.endsAt source := by
  obtain ⟨hstart, hend, hloud⟩ := reach_of_isWhole source hwhole
  rcases h.place.inReach hc (h.partPlace hc) with hsilent | ⟨hfrom, hto⟩
  · rw [hloud] at hsilent
    exact Bool.noConfusion hsilent
  · exact ⟨hfrom.trans hstart.le, hend.ge.trans hto⟩

/-- What is done below some nodes is done below one of them, in its reach. -/
theorem Node.IsSound.exists_inside (h : n.IsSound source) {b : Action}
    (hb : b ∈ eraseAll source n.children) :
    ∃ c ∈ n.children, b ∈ erase source c ∧
      (c.isSilent = true → b.range? = none) ∧
      ∀ r ∈ b.range?, c.startsAt ≤ r.start ∧ r.stop ≤ c.endsAt source := by
  obtain ⟨c, hc, hb⟩ := mem_eraseAll.mp hb
  exact ⟨c, hc, hb, fun hsilent => erase_of_isSilent hsilent b hb, (h.reach c hc).inside b hb⟩

/-! ## §3. Marks behind names -/

theorem blankMark_settled (source : List Char) (offset : Nat) (mark : String) :
    SettledIn offset (behindMark source offset mark) (blankMark source offset mark) := by
  rcases blankMark_eq source offset mark with h | ⟨found, h, hle, hbehind⟩
  · rw [h]
    exact .look .nil
  · rw [h, hbehind]
    exact .look (.blank hle (Nat.le_refl _))

/-- What stands in front of an offset, or behind the mark there, is apart from the mark. -/
theorem blankMark_apart {offset : Nat} {mark : String} {b : Action}
    (h : ∀ r ∈ b.range?, r.stop ≤ offset ∨ behindMark source offset mark ≤ r.start) :
    ∀ a ∈ blankMark source offset mark, a.Apart b := by
  intro a ha r hr s hs
  obtain ⟨hlo, hhi⟩ := (blankMark_settled source offset mark).inside a ha r hr
  rcases h s hs with h | h
  · exact .inr (h.trans hlo)
  · exact .inl (hhi.trans h)

theorem le_foldr_max {xs : List Node} {least : Nat} :
    least ≤ xs.foldr (fun x most => max x.stop most) least := by
  induction xs with
  | nil => exact Nat.le_refl _
  | cons x xs ih => exact ih.trans (Nat.le_max_right ..)

/-- The mark and the type of a binding. -/
theorem mem_erase_binding {name : String} {isOptional : Bool} {span : Span} {types : List Node}
    (htypes : ∀ t ∈ types, t.kind = .typeClause) {a : Action}
    (ha : a ∈ erase source (.mk (.binding name isOptional) span types)) :
    (isOptional = true ∧ a ∈ blankMark source (span.start + name.utf8ByteSize) "?") ∨
      ∃ t ∈ types, a = blankSpan t.span := by
  unfold erase at ha
  dsimp only at ha
  rw [isTypeOnly_eq_false rfl, if_neg Bool.false_ne_true] at ha
  rcases List.mem_append.mp ha with ha | ha
  · left
    cases isOptional with
    | true => exact ⟨rfl, ha⟩
    | false => exact absurd ha List.not_mem_nil
  · right
    obtain ⟨⟨kind, tspan, parts⟩, ht, ha⟩ := mem_eraseAll.mp ha
    obtain rfl : kind = .typeClause := htypes _ ht
    rw [erase, isTypeOnly_eq_false rfl, if_neg Bool.false_ne_true] at ha
    exact ⟨_, ht, List.mem_singleton.mp ha⟩

theorem binding_settled {name : String} {isOptional : Bool}
    (hkind : n.kind = .binding name isOptional) (h : n.IsSound source) :
    SettledIn n.startsAt (n.endsAt source)
      (ownActions source n.kind n.span n.children ++ eraseAll source n.children) := by
  obtain ⟨kind, span, types⟩ := n
  obtain rfl : kind = .binding name isOptional := hkind
  cases isOptional with
  | false => exact h.below
  | true =>
    have hwords : BindingInPlace source name true (.mk (.binding name true) span types) :=
      h.place.words
    have hmark := blankMark_settled source (span.start + name.utf8ByteSize) "?"
    refine .append_of_settled (hmark.mono (Nat.le_add_right ..) ?_) h.below fun a ha b hb => ?_
    · exact (Nat.le_max_right ..).trans le_foldr_max
    · obtain ⟨c, hc, -, -, hinside⟩ := h.exists_inside hb
      obtain ⟨-, -, hbehind⟩ := hwords c hc
      refine .inl (blankMark_apart (fun r hr => .inr ?_) a ha)
      exact ((hbehind rfl).trans (h.partPlace hc).start_le_startsAt).trans (hinside r hr).1

/-- The mark behind the name of a variable. -/
theorem declarator_settled (hkind : n.kind = .declarator true) (h : n.IsSound source) :
    SettledIn n.startsAt (n.endsAt source)
      (ownActions source n.kind n.span n.children ++ eraseAll source n.children) := by
  obtain ⟨kind, span, children⟩ := n
  obtain rfl : kind = .declarator true := hkind
  have hwords : DeclaratorInPlace source (.mk (.declarator true) span children) := h.place.words
  show SettledIn span.start span.stop _
  unfold ownActions
  dsimp only [Node.kind, Node.children, Node.span]
  split
  · next name isOptional nameSpan types rest =>
    obtain ⟨hstop, hstart, htypes, hrest⟩ : behindMark source
          (nameSpan.start + name.utf8ByteSize) "!" ≤ span.stop ∧ span.start ≤ nameSpan.start ∧
        (∀ c ∈ types, behindMark source (nameSpan.start + name.utf8ByteSize) "!" ≤ c.start) ∧
        ∀ c ∈ rest, c.isSilent = true ∨
          behindMark source (nameSpan.start + name.utf8ByteSize) "!" ≤ c.startsAt := hwords
    have hmark := blankMark_settled source (nameSpan.start + name.utf8ByteSize) "!"
    refine .append_of_settled (hmark.mono (by omega) hstop) h.below fun a ha b hb => ?_
    obtain ⟨c, hc, hb, hsilent, hinside⟩ := h.exists_inside hb
    rcases List.mem_cons.mp hc with rfl | hc
    · have hbinding : BindingInPlace source name isOptional
          (.mk (.binding name isOptional) nameSpan types) := (h.partPlace hc).words
      rcases mem_erase_binding (fun t ht => (hbinding t ht).1) hb with ⟨-, hb⟩ | ⟨t, ht, rfl⟩
      · -- The name would have two marks at one place.
        rcases blankMark_or source (nameSpan.start + name.utf8ByteSize) with hnone | hnone
        · rw [hnone] at hb
          rw [List.mem_singleton.mp hb]
          exact .inl (Action.apart_of_range? rfl)
        · rw [hnone] at ha
          rw [List.mem_singleton.mp ha]
          exact .inl (Action.apart_of_range? rfl).symm
      · refine .inl (blankMark_apart (fun r hr => .inr ?_) a ha)
        obtain ⟨-, rfl⟩ := Action.range?_blank hr
        exact htypes t ht
    · refine .inl (blankMark_apart (fun r hr => .inr ?_) a ha)
      rcases hrest c hc with hc | hc
      · rw [hsilent hc] at hr
        simp at hr
      · exact hc.trans (hinside r hr).1
  · exact h.below

/-! ## §4. Functions -/

/-- Where the blank for the first parameter of a function stops: where the next one begins. -/
def receiverStop (first : Node) (rest : List Node) : Nat :=
  (rest.head?.map Node.start).getD first.stop

theorem receiverStop_bounds {first : Node} {rest : List Node}
    (hpairwise : (first :: rest).Pairwise fun a b => a.stop ≤ b.start)
    (hordered : ∀ p ∈ first :: rest, p.start ≤ p.stop) :
    first.stop ≤ receiverStop first rest ∧ (∀ p ∈ rest, receiverStop first rest ≤ p.start) ∧
      ∃ p ∈ first :: rest, receiverStop first rest ≤ p.stop := by
  obtain ⟨hfirst, hrest⟩ := List.pairwise_cons.mp hpairwise
  cases rest with
  | nil =>
    exact ⟨Nat.le_refl _, fun _ h => absurd h List.not_mem_nil, first, List.mem_cons_self ..,
      Nat.le_refl _⟩
  | cons next more =>
    have hnext : next ∈ first :: next :: more := List.mem_cons_of_mem _ (List.mem_cons_self ..)
    refine ⟨hfirst next (List.mem_cons_self ..), fun p hp => ?_, next, hnext, hordered next hnext⟩
    rcases List.mem_cons.mp hp with rfl | hp
    · exact Nat.le_refl _
    · exact (hordered next hnext).trans ((List.pairwise_cons.mp hrest).1 p hp)

/-- A function blanks nothing, or a first parameter that only declares the receiver. -/
theorem blankReceiver_cases (children : List Node) :
    blankReceiver children = [] ∨ ∃ span parts isOptional nameSpan types rest,
      (children.filter fun c => c.kind == .param) = .mk .param span parts :: rest ∧
      parts.getLast? = some (.mk (.binding "this" isOptional) nameSpan types) ∧
      blankReceiver children
        = [.blank span.start (receiverStop (.mk .param span parts) rest)] := by
  unfold blankReceiver
  split
  · next first rest hfilter =>
    split
    · split
      · next hlast => exact .inr ⟨_, _, _, _, _, _, hfilter, hlast, rfl⟩
      · exact .inl rfl
    · exact .inl rfl
  · exact .inl rfl

/-- What is blanked in a parameter that declares the receiver stands behind its name. -/
theorem exists_blank_of_receiver {span nameSpan : Span} {parts types : List Node}
    {isOptional : Bool} (h : isLaidOut source (.mk .param span parts) = true)
    (hlast : parts.getLast? = some (.mk (.binding "this" isOptional) nameSpan types)) {b : Action}
    (hb : b ∈ erase source (.mk .param span parts)) :
    b.range? = none ∨ ∃ start stop, b = .blank start stop ∧ span.start < start := by
  obtain ⟨hplace, hparts⟩ := isLaidOut_iff.mp h
  have hparts := hparts.resolve_left (by rw [isTypeOnly_eq_false rfl]; exact Bool.false_ne_true)
  obtain ⟨hsilent, hpattern⟩ : PatternLast (.mk .param span parts) := hplace.words
  have hstart : span.start ≤ nameSpan.start := (hpattern _ hlast).1
  unfold erase at hb
  dsimp only at hb
  rw [isTypeOnly_eq_false rfl, if_neg Bool.false_ne_true] at hb
  obtain ⟨q, hq, hb⟩ := mem_eraseAll.mp ((List.mem_append.mp hb).resolve_left List.not_mem_nil)
  have hmem := hq
  rw [← List.dropLast_append_getLast? _ hlast] at hmem
  rcases List.mem_append.mp hmem with hfront | hname
  · exact .inl (erase_of_isSilent (hsilent q hfront) b hb)
  · obtain rfl := List.mem_singleton.mp hname
    have hbinding : BindingInPlace source "this" isOptional
        (.mk (.binding "this" isOptional) nameSpan types) :=
      (isLaidOut_iff.mp (hparts _ hq)).1.words
    have hsize : 0 < "this".utf8ByteSize := by decide
    rcases mem_erase_binding (fun t ht => (hbinding t ht).1) hb with ⟨-, hb⟩ | ⟨t, ht, rfl⟩
    · rcases blankMark_eq source (nameSpan.start + "this".utf8ByteSize) "?" with
        hnone | ⟨found, hone, hle, -⟩
      · rw [hnone] at hb
        exact .inl (by rw [List.mem_singleton.mp hb, Action.range?])
      · rw [hone] at hb
        rcases List.mem_cons.mp hb with rfl | hb
        · exact .inl rfl
        · exact .inr ⟨_, _, List.mem_singleton.mp hb, by omega⟩
    · have hbehind : nameSpan.start + "this".utf8ByteSize ≤ t.start := (hbinding t ht).2.1
      exact .inr ⟨_, _, rfl, show span.start < t.start by omega⟩

section

variable {first : Span} {parts rest : List Node}
  (hfilter : (n.children.filter fun c => c.kind == .param) = .mk .param first parts :: rest)

include hfilter

/-- The parameters of a function are among its parts. -/
theorem mem_of_params (hc : c ∈ .mk .param first parts :: rest) :
    c ∈ n.children ∧ c.kind = .param := by
  rw [← hfilter] at hc
  exact ⟨(List.mem_filter.mp hc).1, beq_iff_eq.mp (List.mem_filter.mp hc).2⟩

/-- How far the blank for the receiver goes, in a function that is in place. -/
theorem receiverStop_of_inPlace (hwords : ParametersInPlace source n) (h : n.IsSound source) :
    first.stop ≤ receiverStop (.mk .param first parts) rest ∧
      (∀ p ∈ rest, receiverStop (.mk .param first parts) rest ≤ p.start) ∧
      ∃ p ∈ .mk .param first parts :: rest,
        receiverStop (.mk .param first parts) rest ≤ p.stop := by
  have hpairwise := hwords.1
  rw [hfilter] at hpairwise
  exact receiverStop_bounds hpairwise fun p hp =>
    (h.partPlace (mem_of_params hfilter hp).1).ordered

/-- **What is done below a function is settled with the blank for its receiver**: what would be
blanked in the receiver itself is covered, and all else stands in front of it or behind it. -/
theorem receiver_settled {nameSpan : Span} {isOptional : Bool} {types : List Node}
    (hlast : parts.getLast? = some (.mk (.binding "this" isOptional) nameSpan types))
    (hwords : ParametersInPlace source n) (h : n.IsSound source) {b : Action}
    (hb : b ∈ eraseAll source n.children) :
    (Action.blank first.start (receiverStop (.mk .param first parts) rest)).Settled b := by
  obtain ⟨hfirst, hrest, last, hlastMem, hstop⟩ := receiverStop_of_inPlace hfilter hwords h
  obtain ⟨c, hc, hb, hsilent, hinside⟩ := h.exists_inside hb
  by_cases hparam : c.kind = .param
  · obtain ⟨hstart, hend, -⟩ := reach_of_isWhole source (isWhole_of_param hparam)
    have hc' : c ∈ Node.mk .param first parts :: rest := by
      rw [← hfilter]
      exact List.mem_filter.mpr ⟨hc, beq_iff_eq.mpr hparam⟩
    rcases List.mem_cons.mp hc' with rfl | hc'
    · rcases exists_blank_of_receiver (h.parts _ hc) hlast hb with
        hnone | ⟨start, stop, rfl, hlt⟩
      · exact .inl (Action.apart_of_range? hnone)
      · by_cases hempty : stop ≤ start
        · exact .inl (Action.apart_of_range? (if_pos hempty))
        · have hin := (hinside ⟨start, stop⟩ (if_neg hempty)).2
          exact .inr (.inl ⟨hlt, hin.trans hfirst⟩)
    · refine .inl (Action.blank_apart fun r hr => .inr ?_)
      exact (hrest c hc').trans (hstart ▸ (hinside r hr).1)
  · rcases hwords.2 c hc with hc' | hc' | hc' | hc'
    · exact absurd hc' hparam
    · exact .inl (Action.apart_of_range? (hsilent hc'))
    · refine .inl (Action.blank_apart fun r hr => .inl ?_)
      have hin := hc' (.mk .param first parts) (hfilter ▸ List.mem_cons_self ..)
      exact (hinside r hr).2.trans hin
    · refine .inl (Action.blank_apart fun r hr => .inr ?_)
      exact (hstop.trans (hc' last (hfilter ▸ hlastMem))).trans (hinside r hr).1

end

/-- **A parameter that only declares the receiver** is blanked with the comma behind it. -/
theorem function_settled {isAsync isGenerator has : Bool}
    (hkind : n.kind = .function isAsync isGenerator has) (h : n.IsSound source) :
    SettledIn n.startsAt (n.endsAt source)
      (ownActions source n.kind n.span n.children ++ eraseAll source n.children) := by
  have hwords : ParametersInPlace source n := by
    have hall := h.place.words
    rw [Node.WordsInPlace, hkind] at hall
    exact hall
  have hown : ownActions source n.kind n.span n.children = blankReceiver n.children := by
    rw [hkind]
    rfl
  rw [hown]
  rcases blankReceiver_cases n.children with hnone |
    ⟨first, parts, isOptional, nameSpan, types, rest, hfilter, hlast, hblank⟩
  · rw [hnone]
    exact h.below
  · have hself := mem_of_params hfilter (List.mem_cons_self ..)
    obtain ⟨-, -, last, hlastMem, hstop⟩ := receiverStop_of_inPlace hfilter hwords h
    have hlastParam := mem_of_params hfilter hlastMem
    rw [hblank]
    refine .append_of_settled (.blank ?_ ?_) h.below fun a ha b hb => ?_
    · exact (h.inReach_of_isWhole hself.1 (isWhole_of_param hself.2)).1
    · exact hstop.trans (h.inReach_of_isWhole hlastParam.1 (isWhole_of_param hlastParam.2)).2
    · obtain rfl := List.mem_singleton.mp ha
      exact receiver_settled hfilter hlast hwords h hb

/-! ## §5. Expressions with types -/

/-- What stands behind an expression is blanked. -/
theorem blankBehind_settled (hwhole : n.isWhole = true) (hwords : InnerFirst source n)
    (h : n.IsSound source) : SettledIn n.startsAt (n.endsAt source)
      (eraseAll source n.children ++ blankBehind n.children n.span) := by
  obtain ⟨kind, span, children⟩ := n
  obtain ⟨hstart, hend, -⟩ := reach_of_isWhole source hwhole
  cases children with
  | nil => exact .nil
  | cons inner rest =>
    obtain ⟨hlo, hhi, hinner⟩ := hwords
    have hbelow := h.below_to hinner
    rw [hstart] at hbelow
    rw [hstart, hend]
    exact hbelow.append (.blank (Nat.le_refl _) (Nat.le_refl _)) hlo hhi

/-- What stands in front of an expression is blanked. -/
theorem blankInFront_settled (hwhole : n.isWhole = true) (hwords : InnerLast n)
    (h : n.IsSound source) : SettledIn n.startsAt (n.endsAt source)
      (blankInFront n.children n.span ++ eraseAll source n.children) := by
  obtain ⟨kind, span, children⟩ := n
  obtain ⟨hstart, hend, -⟩ := reach_of_isWhole source hwhole
  cases children with
  | nil => exact .nil
  | cons inner rest =>
    obtain ⟨hlo, hhi, hinner⟩ := hwords
    have hbelow := h.below_from hinner
    rw [hend] at hbelow
    rw [hstart, hend]
    exact SettledIn.append (.blank (Nat.le_refl _) (Nat.le_refl _)) hbelow hlo hhi

end SingleFile.Script
