/-
  SingleFile.Proofs.Script.Settled — ACTIONS THAT DO NOT GET IN EACH OTHER'S WAY
  ──────────────────────────────────────────────────────────────────────────────
  Two actions are settled when they stand apart, or when one is a blank inside
  of an earlier blank.  An edit that begins inside of another one is dropped;
  where all actions are settled, only blanks are dropped for which the text is
  blank already.

  Main results:
    * `SettledIn` — settled actions between two offsets; how they are put
      together.
    * `carriedOutFrom_eq_filter` — of sorted edits those are dropped that
      another edit holds.  The induction.
    * `carriedOut_of_settled` — of settled actions those are dropped that
      another one covers.
    * `uncovered_or_covered` — what is dropped is covered by what is not.
-/
import Mathlib.Data.List.Pairwise
import SingleFile.Proofs.Script.EditOrder

namespace SingleFile.Script

open SingleFile.Text

/-! ## §1. Two actions -/

/-- Whether an action blanks all that another one blanks, and starts in front of it. -/
def Action.Covers : Action → Action → Prop
  | .blank start stop, .blank start' stop' => start < start' ∧ stop' ≤ stop
  | _, _ => False

instance : DecidableRel Action.Covers := fun a b => by
  unfold Action.Covers
  split <;> infer_instance

/-- Whether two actions stand apart, or one of them covers the other one. -/
def Action.Settled (a b : Action) : Prop := a.Apart b ∨ a.Covers b ∨ b.Covers a

instance : DecidableRel Action.Settled := fun _ _ => instDecidableOr

theorem Action.Apart.symm {a b : Action} (h : a.Apart b) : b.Apart a :=
  fun r hr s hs => (h s hs r hr).symm

theorem Action.Apart.settled {a b : Action} (h : a.Apart b) : a.Settled b := .inl h

theorem Action.Settled.symm {a b : Action} (h : a.Settled b) : b.Settled a := by
  rcases h with h | h | h
  · exact .inl h.symm
  · exact .inr (.inr h)
  · exact .inr (.inl h)

instance : Std.Symm Action.Settled := ⟨fun _ _ => Action.Settled.symm⟩

theorem Action.Covers.exists_blanks {a b : Action} (h : a.Covers b) :
    ∃ start stop start' stop', a = .blank start stop ∧ b = .blank start' stop' ∧
      start < start' ∧ stop' ≤ stop := by
  unfold Action.Covers at h
  split at h
  · exact ⟨_, _, _, _, rfl, rfl, h⟩
  · exact h.elim

theorem Action.Covers.trans {a b c : Action} (h : a.Covers b) (h' : b.Covers c) : a.Covers c := by
  obtain ⟨start, stop, start', stop', rfl, rfl, hstart, hstop⟩ := h.exists_blanks
  obtain ⟨middle, behind, start'', stop'', heq, rfl, hstart', hstop'⟩ := h'.exists_blanks
  obtain ⟨rfl, rfl⟩ := Action.blank.inj heq
  exact ⟨hstart.trans hstart', hstop'.trans hstop⟩

theorem Action.range?_blank {start stop : Nat} {r : Span}
    (h : (Action.blank start stop).range? = some r) : start < stop ∧ r = ⟨start, stop⟩ := by
  rw [Action.range?] at h
  split at h
  · simp at h
  · exact ⟨by omega, (Option.some.inj h).symm⟩

/-- What touches nothing stands apart from everything. -/
theorem Action.apart_of_range? {a b : Action} (h : b.range? = none) : a.Apart b := by
  intro r _ s hs
  rw [h] at hs
  simp at hs

theorem Action.blank_apart {start stop : Nat} {b : Action}
    (h : ∀ r ∈ b.range?, r.stop ≤ start ∨ stop ≤ r.start) : (Action.blank start stop).Apart b := by
  intro r hr s hs
  obtain ⟨-, rfl⟩ := Action.range?_blank hr
  exact (h s hs).symm

theorem Action.insert_apart {offset : Nat} {text : String} {b : Action}
    (h : ∀ r ∈ b.range?, r.stop ≤ offset ∨ offset ≤ r.start) :
    (Action.insert offset text).Apart b := by
  intro r hr s hs
  obtain rfl := Option.some.inj hr
  exact (h s hs).symm

/-! ## §2. Actions between two offsets -/

/-- **Whether some actions stand between two offsets and are settled among themselves.** -/
structure SettledIn (lo hi : Nat) (actions : List Action) : Prop where
  inside : ∀ a ∈ actions, ∀ r ∈ a.range?, lo ≤ r.start ∧ r.stop ≤ hi
  settled : actions.Pairwise Action.Settled

namespace SettledIn

variable {lo mid mid' hi : Nat} {a : Action} {xs ys : List Action}

theorem nil : SettledIn lo hi [] := ⟨fun _ h => absurd h List.not_mem_nil, .nil⟩

theorem single (h : ∀ r ∈ a.range?, lo ≤ r.start ∧ r.stop ≤ hi) : SettledIn lo hi [a] where
  inside x hx := by
    obtain rfl := List.mem_singleton.mp hx
    exact h
  settled := List.pairwise_singleton ..

theorem blank {start stop : Nat} (hstart : lo ≤ start) (hstop : stop ≤ hi) :
    SettledIn lo hi [.blank start stop] := by
  refine single fun r hr => ?_
  obtain ⟨-, rfl⟩ := Action.range?_blank hr
  exact ⟨hstart, hstop⟩

theorem replace {start stop : Nat} {text : String} (hstart : lo ≤ start) (hstop : stop ≤ hi) :
    SettledIn lo hi [.replace start stop text] := by
  refine single fun r hr => ?_
  obtain rfl := Option.some.inj hr
  exact ⟨hstart, hstop⟩

theorem insert {offset : Nat} {text : String} (hlo : lo ≤ offset) (hhi : offset ≤ hi) :
    SettledIn lo hi [.insert offset text] := by
  refine single fun r hr => ?_
  obtain rfl := Option.some.inj hr
  exact ⟨hlo, hhi⟩

/-- What does nothing to the text stands anywhere. -/
theorem quiet (h : ∀ a ∈ xs, a.range? = none) : SettledIn lo hi xs where
  inside a ha r hr := by
    rw [h a ha] at hr
    simp at hr
  settled := List.pairwise_of_forall_mem_list fun a ha _ _ => .inl fun r hr => by
    rw [h a ha] at hr
    simp at hr

theorem mono (h : SettledIn lo hi xs) {lo' hi' : Nat} (hlo : lo' ≤ lo) (hhi : hi ≤ hi') :
    SettledIn lo' hi' xs where
  inside a ha r hr := ⟨hlo.trans (h.inside a ha r hr).1, (h.inside a ha r hr).2.trans hhi⟩
  settled := h.settled

theorem perm (h : SettledIn lo hi xs) (hperm : xs.Perm ys) : SettledIn lo hi ys where
  inside a ha := h.inside a (hperm.mem_iff.mpr ha)
  settled := h.settled.perm hperm Action.Settled.symm

/-- What does nothing to the text may come in front of anything. -/
theorem behind_quiet (hquiet : ∀ a ∈ xs, a.range? = none) (h : SettledIn lo hi ys) :
    SettledIn lo hi (xs ++ ys) := by
  have hfront : SettledIn lo hi xs := quiet hquiet
  refine ⟨fun a ha => (List.mem_append.mp ha).elim (hfront.inside a) (h.inside a), ?_⟩
  exact List.pairwise_append.mpr ⟨hfront.settled, h.settled, fun a ha _ _ =>
    (Action.apart_of_range? (hquiet a ha)).symm.settled⟩

theorem look {offset : Nat} (h : SettledIn lo hi xs) : SettledIn lo hi (.look offset :: xs) := by
  have hquiet : ∀ a ∈ [Action.look offset], a.range? = none := List.forall_mem_singleton.mpr rfl
  exact behind_quiet hquiet h

/-- Actions in front of an offset and actions behind it stand apart. -/
theorem apart (h : SettledIn lo mid xs) (h' : SettledIn mid' hi ys) (hle : mid ≤ mid') :
    ∀ a ∈ xs, ∀ b ∈ ys, a.Apart b := fun a ha b hb r hr s hs =>
  .inl (((h.inside a ha r hr).2.trans hle).trans (h'.inside b hb s hs).1)

theorem append_of_settled (h : SettledIn lo hi xs) (h' : SettledIn lo hi ys)
    (hcross : ∀ a ∈ xs, ∀ b ∈ ys, a.Settled b) : SettledIn lo hi (xs ++ ys) where
  inside a ha := (List.mem_append.mp ha).elim (h.inside a) (h'.inside a)
  settled := List.pairwise_append.mpr ⟨h.settled, h'.settled, hcross⟩

/-- **Actions in front of an offset, and then actions behind it.** -/
theorem append (h : SettledIn lo mid xs) (h' : SettledIn mid hi ys) (hlo : lo ≤ mid)
    (hhi : mid ≤ hi) : SettledIn lo hi (xs ++ ys) :=
  (h.mono (Nat.le_refl _) hhi).append_of_settled (h'.mono hlo (Nat.le_refl _))
    fun a ha b hb => .inl (h.apart h' (Nat.le_refl _) a ha b hb)

/-- Actions behind an offset, and then actions in front of it. -/
theorem append_back (h : SettledIn mid hi xs) (h' : SettledIn lo mid ys) (hlo : lo ≤ mid)
    (hhi : mid ≤ hi) : SettledIn lo hi (xs ++ ys) :=
  (h'.append h hlo hhi).perm List.perm_append_comm

end SettledIn

/-! ## §3. Edits -/

/-- Whether an edit has a range that is all of it inside of another one's, which starts in front of
it. -/
def Edit.Holds (a b : Edit) : Prop := a.start < b.start ∧ b.start < b.stop ∧ b.stop ≤ a.stop

instance : DecidableRel Edit.Holds := fun _ _ => instDecidableAnd

/-- Whether two edits stand apart, or one of them holds the other one. -/
def Edit.Settled (a b : Edit) : Prop := a.Apart b ∨ a.Holds b ∨ b.Holds a

theorem Edit.Settled.symm {a b : Edit} (h : a.Settled b) : b.Settled a := by
  rcases h with h | h | h
  · exact .inl h.symm
  · exact .inr (.inr h)
  · exact .inr (.inl h)

theorem Edit.Holds.trans {a b c : Edit} (h : a.Holds b) (h' : b.Holds c) : a.Holds c := by
  unfold Edit.Holds at *
  omega

/-- No edit holds one that comes before it. -/
theorem Edit.not_holds_of_comesBefore {a b : Edit} (hbefore : a.comesBefore b = true) :
    ¬ b.Holds a := by
  simp only [Edit.comesBefore, Bool.or_eq_true, Bool.and_eq_true, decide_eq_true_eq,
    beq_iff_eq] at hbefore
  unfold Edit.Holds
  omega

/-- What begins in a settled edit in front of it is held by it. -/
theorem Edit.Settled.holds {a b : Edit} (h : a.Settled b) (hbefore : a.comesBefore b = true)
    (hordered : b.start ≤ b.stop) (hinside : b.start < a.stop) : a.Holds b := by
  rcases h with h | h | h
  · have := Edit.stop_le_of_comesBefore hbefore hordered h
    omega
  · exact h
  · exact absurd h (Edit.not_holds_of_comesBefore hbefore)

/-- **Of sorted edits those are dropped that another edit holds.** -/
theorem carriedOutFrom_eq_filter (passed edits : List Edit) (offset : Nat)
    (hordered : ∀ e ∈ edits, e.start ≤ e.stop)
    (hsorted : edits.Pairwise fun a b => a.comesBefore b = true)
    (hsettled : edits.Pairwise Edit.Settled)
    (hoffset : ∀ e ∈ edits, e.start < offset ↔ ∃ x ∈ passed, x.Holds e) :
    carriedOutFrom offset edits
      = edits.filter fun e => !(passed ++ edits).any fun x => x.Holds e := by
  -- What is carried along is that exactly those begin in front of the offset that are held by an
  -- edit which has been passed.
  induction edits generalizing passed offset with
  | nil => rfl
  | cons e edits ih =>
    obtain ⟨he, hordered⟩ := List.forall_mem_cons.mp hordered
    obtain ⟨hfirst, hsorted⟩ := List.pairwise_cons.mp hsorted
    obtain ⟨hcross, hsettled⟩ := List.pairwise_cons.mp hsettled
    obtain ⟨hself, hoffset⟩ := List.forall_mem_cons.mp hoffset
    have hshift : passed ++ e :: edits = (passed ++ [e]) ++ edits := by simp
    have hpassed {x y : Edit} : (∃ z ∈ passed ++ [x], z.Holds y) ↔
        (∃ z ∈ passed, z.Holds y) ∨ x.Holds y := by
      simp only [List.mem_append, List.mem_singleton, or_and_right, exists_or, exists_eq_left]
    rw [carriedOutFrom, List.filter_cons]
    split
    · next hdropped =>
      obtain ⟨holder, hmem, hheld⟩ := hself.mp hdropped
      have hany : ((passed ++ e :: edits).any fun x => x.Holds e) = true :=
        List.any_eq_true.mpr ⟨holder, List.mem_append_left _ hmem, decide_eq_true hheld⟩
      rw [hany, if_neg (by simp), hshift]
      refine ih _ _ hordered hsorted hsettled fun x hx => ?_
      rw [hpassed, hoffset x hx]
      refine (or_iff_left_of_imp fun hheldBy => ?_).symm
      -- What a dropped edit holds is held by what the edit is dropped for.
      exact ⟨holder, hmem, hheld.trans hheldBy⟩
    · next hkept =>
      have hnone : ((passed ++ e :: edits).any fun x => x.Holds e) = false := by
        refine List.any_eq_false.mpr fun x hx => ?_
        rw [decide_eq_true_eq]
        intro hheld
        rcases List.mem_append.mp hx with hx | hx
        · exact hkept (hself.mpr ⟨x, hx, hheld⟩)
        · rcases List.mem_cons.mp hx with rfl | hx
          · exact Nat.lt_irrefl _ hheld.1
          · exact Edit.not_holds_of_comesBefore (hfirst x hx) hheld
      rw [hnone, Bool.not_false, if_pos rfl, hshift]
      refine congrArg (e :: ·) (ih _ _ hordered hsorted hsettled fun x hx => ?_)
      rw [hpassed]
      constructor
      · exact fun hinside => .inr ((hcross x hx).holds (hfirst x hx) (hordered x hx) hinside)
      · rintro (hheld | hheld)
        · have := (hoffset x hx).mpr hheld
          omega
        · exact Nat.lt_of_lt_of_le hheld.2.1 hheld.2.2

/-- Of settled edits those are carried out that no other one holds. -/
theorem carriedOut_perm_filter {edits : List Edit} (hordered : ∀ e ∈ edits, e.start ≤ e.stop)
    (hsettled : edits.Pairwise Edit.Settled) :
    (carriedOut edits).Perm (edits.filter fun e => !edits.any fun x => x.Holds e) := by
  have hperm := List.mergeSort_perm edits Edit.comesBefore
  have hsorted := List.pairwise_mergeSort Edit.comesBefore_trans Edit.comesBefore_total edits
  have hfilter := carriedOutFrom_eq_filter [] _ 0
    (fun e he => hordered e (hperm.mem_iff.mp he)) hsorted
    (hsettled.perm hperm.symm Edit.Settled.symm) (fun e _ => by simp)
  rw [carriedOut, hfilter, List.nil_append]
  have hsame : (fun e => !(edits.mergeSort Edit.comesBefore).any fun x => decide (x.Holds e))
      = fun e => !edits.any fun x => decide (x.Holds e) :=
    funext fun e => congrArg (!·) hperm.any_eq
  rw [hsame]
  exact hperm.filter _

/-- What stands in front of everything neither holds an edit nor is held. -/
theorem filter_held_append_front {edits front : List Edit}
    (hfront : ∀ e ∈ front, e.start = 0 ∧ e.stop = 0) :
    ((edits ++ front).filter fun e => !(edits ++ front).any fun x => x.Holds e)
      = (edits.filter fun e => !edits.any fun x => x.Holds e) ++ front := by
  have hnotHeld : ∀ e ∈ front, ((edits ++ front).any fun x => decide (x.Holds e)) = false := by
    intro e he
    refine List.any_eq_false.mpr fun x _ hheld => ?_
    have hlt := (of_decide_eq_true hheld).1
    have := hfront e he
    omega
  have hholdsNone (e : Edit) : (front.any fun x => decide (x.Holds e)) = false := by
    refine List.any_eq_false.mpr fun x hx hheld => ?_
    obtain ⟨-, hlt, hle⟩ := of_decide_eq_true hheld
    have := hfront x hx
    omega
  rw [List.filter_append]
  congr 1
  · refine List.filter_congr fun e _ => ?_
    rw [List.any_append, hholdsNone e, Bool.or_false]
  · exact List.filter_eq_self.mpr fun e he => by rw [hnotHeld e he]; rfl

/-! ## §4. What is dropped -/

/-- The actions that no other one covers. -/
def uncovered (actions : List Action) : List Action :=
  actions.filter fun a => !actions.any fun b => b.Covers a

variable {source : List Char} {actions : List Action} {edits : List Edit}

/-- Only blanks are covered. -/
theorem mem_uncovered {a : Action} (ha : a ∈ actions) (h : ∀ start stop, a ≠ .blank start stop) :
    a ∈ uncovered actions := by
  refine List.mem_filter.mpr ⟨ha, ?_⟩
  rw [Bool.not_eq_true', List.any_eq_false]
  intro b _ hcovers
  obtain ⟨-, -, start, stop, -, heq, -⟩ := (of_decide_eq_true hcovers).exists_blanks
  exact h start stop heq

/-- **What is dropped is covered by what is not**: the text is blank already. -/
theorem uncovered_or_covered {a : Action} (ha : a ∈ actions) :
    a ∈ uncovered actions ∨ ∃ b ∈ uncovered actions, b.Covers a := by
  by_cases hcovered : ∃ b ∈ actions, b.Covers a
  · right
    obtain ⟨b, hb, hcovers⟩ := hcovered
    obtain ⟨start, stop, start', stop', rfl, rfl, hstart, -⟩ := hcovers.exists_blanks
    -- The covering blank starts farther in front, so going on ends.
    have hsmaller : start < start' := hstart
    rcases uncovered_or_covered hb with hb | ⟨c, hc, hcovers'⟩
    · exact ⟨_, hb, hcovers⟩
    · exact ⟨c, hc, hcovers'.trans hcovers⟩
  · left
    refine List.mem_filter.mpr ⟨ha, ?_⟩
    rw [Bool.not_eq_true', List.any_eq_false]
    exact fun b hb hcovers => hcovered ⟨b, hb, of_decide_eq_true hcovers⟩
termination_by (match a with | .blank start _ => start | _ => 0)

/-- The edit of a covering blank holds that of the covered one. -/
theorem Action.Covers.holds {a b : Action} (h : a.Covers b) {e x : Edit}
    (he : e ∈ a.editsIn source) (hx : x ∈ b.editsIn source) : e.Holds x := by
  obtain ⟨start, stop, start', stop', rfl, rfl, hstart, hstop⟩ := h.exists_blanks
  obtain ⟨-, hrange⟩ := Action.range?_blank (Action.range?_of_mem he)
  obtain ⟨hnonempty, hrange'⟩ := Action.range?_blank (Action.range?_of_mem hx)
  obtain ⟨rfl, rfl⟩ := Span.mk.inj hrange
  obtain ⟨rfl, rfl⟩ := Span.mk.inj hrange'
  exact ⟨hstart, hnonempty, hstop⟩

/-- The edits of settled actions are settled. -/
theorem Action.Settled.of_mem {a b : Action} (h : a.Settled b) {e x : Edit}
    (he : e ∈ a.editsIn source) (hx : x ∈ b.editsIn source) : e.Settled x := by
  rcases h with h | h | h
  · exact .inl (h _ (Action.range?_of_mem he) _ (Action.range?_of_mem hx))
  · exact .inr (.inl (h.holds he hx))
  · exact .inr (.inr (h.holds hx he))

theorem settled_flatMap_editsIn (h : actions.Pairwise Action.Settled) :
    (actions.flatMap (·.editsIn source)).Pairwise Edit.Settled := by
  refine List.pairwise_flatMap.mpr ⟨fun a _ => ?_, h.imp ?_⟩
  · rcases a.editsIn_range source with hnone | ⟨e, hone, -⟩
    · rw [hnone]
      exact .nil
    · rw [hone]
      exact List.pairwise_singleton ..
  · intro a b hab e he x hx
    exact hab.of_mem he hx

/-- An edit is held by another one exactly if its action is covered. -/
theorem held_iff_covered (hsettled : actions.Pairwise Action.Settled)
    (hedits : editsOf? source actions = some edits) {a : Action} (ha : a ∈ actions) {e : Edit}
    (he : e ∈ a.editsIn source) : (∃ x ∈ edits, x.Holds e) ↔ ∃ b ∈ actions, b.Covers a := by
  constructor
  · rintro ⟨x, hx, hheld⟩
    rw [editsOf?_eq_flatMap hedits] at hx
    obtain ⟨b, hb, hx⟩ := List.mem_flatMap.mp hx
    refine ⟨b, hb, ?_⟩
    have hne : b ≠ a := by
      rintro rfl
      have hsame := (Action.range?_of_mem hx).symm.trans (Action.range?_of_mem he)
      obtain ⟨hstart, -⟩ := Span.mk.inj (Option.some.inj hsame)
      exact absurd hstart (Nat.ne_of_lt hheld.1)
    rcases hsettled.forall hb ha hne with h | h | h
    · have hapart := h _ (Action.range?_of_mem hx) _ (Action.range?_of_mem he)
      unfold Edit.Holds at hheld
      dsimp only at hapart
      omega
    · exact h
    · have hback := h.holds he hx
      unfold Edit.Holds at hheld hback
      omega
  · rintro ⟨b, hb, hcovers⟩
    obtain ⟨start, stop, start', stop', rfl, rfl, hstart, hstop⟩ := hcovers.exists_blanks
    obtain ⟨hnonempty, -⟩ := Action.range?_blank (Action.range?_of_mem he)
    obtain ⟨own, hown⟩ := exists_edits?_of_mem hedits hb
    have hone := hown
    rw [Action.edits?, if_neg (by omega)] at hone
    obtain ⟨old, -, rfl⟩ := Option.map_eq_some_iff.mp hone
    have hmem : (⟨start, stop, blankText old⟩ : Edit) ∈
        (Action.blank start stop).editsIn source := by
      rw [Action.editsIn, hown]
      exact List.mem_singleton_self _
    refine ⟨_, ?_, hcovers.holds hmem he⟩
    rw [editsOf?_eq_flatMap hedits]
    exact List.mem_flatMap.mpr ⟨_, hb, hmem⟩

/-- **Of settled actions those are dropped that another one covers**; insertions in front of
everything else are done. -/
theorem carriedOut_of_settled (hsettled : actions.Pairwise Action.Settled)
    (hedits : editsOf? source actions = some edits) {front : List Edit}
    (hfront : ∀ e ∈ front, e.start = 0 ∧ e.stop = 0) :
    (carriedOut (edits ++ front)).Perm
      ((uncovered actions).flatMap (·.editsIn source) ++ front) := by
  have hall := editsOf?_eq_flatMap hedits
  have hordered : ∀ e ∈ edits ++ front, e.start ≤ e.stop := by
    intro e he
    rcases List.mem_append.mp he with he | he
    · obtain ⟨a, -, own, hown, he⟩ := (mem_editsOf? hedits e).mp he
      exact Action.edits?_ordered hown e he
    · have := hfront e he
      omega
  have hsettledEdits : (edits ++ front).Pairwise Edit.Settled := by
    refine List.pairwise_append.mpr ⟨hall ▸ settled_flatMap_editsIn hsettled, ?_, ?_⟩
    · refine List.pairwise_of_forall_mem_list fun e he x hx => .inl (.inl ?_)
      rw [(hfront e he).2]
      exact Nat.zero_le _
    · refine fun e _ x hx => .inl (.inr ?_)
      rw [(hfront x hx).2]
      exact Nat.zero_le _
  refine (carriedOut_perm_filter hordered hsettledEdits).trans (.of_eq ?_)
  rw [filter_held_append_front hfront]
  refine congrArg (· ++ front) ?_
  have hheld : ∀ a ∈ actions, ∀ e ∈ a.editsIn source,
      (!edits.any fun x => decide (x.Holds e)) = !actions.any fun b => decide (b.Covers a) := by
    intro a ha e he
    rw [Bool.not_inj_iff, Bool.eq_iff_iff, List.any_eq_true, List.any_eq_true]
    simpa only [decide_eq_true_eq] using held_iff_covered hsettled hedits ha he
  calc edits.filter (fun e => !edits.any fun x => decide (x.Holds e))
      = (actions.flatMap (·.editsIn source)).filter
          (fun e => !edits.any fun x => decide (x.Holds e)) := congrArg (List.filter _) hall
    _ = (uncovered actions).flatMap (·.editsIn source) := filter_flatMap_eq hheld

end SingleFile.Script
