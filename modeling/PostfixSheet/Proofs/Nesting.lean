import PostfixSheet.Proofs.Sessions

/-!
# How deep contents nest

A call nests contents in one another as it follows references, those included that are walked once more
from a new state. The depth that is given to a walk is the number of contents that may nest; a walk that
would go deeper is cut off. So a call nests at most as many contents as any depth at which it ends.

From any state at all, each content that is entered leaves fewer cells off the path, until one is
completed already. That one is walked from a new state, where what is completed from then on has values,
and from such states the depth is bounded by the number of cells.

* `Walk.Below` says that one walk is cut off or the same as another.
* `EndsOn` says that a walk from any state on a path ends, on that path.

Results:
* `contentWithin_below`: what ends within a depth ends the same within every greater one.
* `resolveAt_endsOn`: from any state, whatever is on its path, completed or kept, looking up a cell ends.
* `walkWithin_ends`: every call ends, with at most one content more than there are cells from a new state
  and at most twice that from any state.
-/

namespace PostfixSheet

/-! ## Greater depths -/

/-- A walk is cut off, or the same as the other one. -/
def Walk.Below {α : Type} (walk walk' : Walk α) : Prop :=
  ∀ r t, walk = .done r t → walk' = .done r t

namespace Walk.Below

variable {α β : Type} {walk walk' : Walk α}

protected theorem refl (walk : Walk α) : walk.Below walk := fun _ _ h => h

theorem andThen {next next' : α → State → Walk β} (h : walk.Below walk')
    (hnext : ∀ x s, (next x s).Below (next' x s)) :
    (walk.andThen next).Below (walk'.andThen next') := by
  intro r t hw
  cases hwalk : walk with
  | cutOff cell =>
    rw [hwalk] at hw
    cases hw
  | done result u =>
    rw [hwalk] at hw
    rw [h result u hwalk]
    cases result with
    | ok x => exact hnext x u r t hw
    | error e => exact hw

end Walk.Below

/-- What is put together from walks that are cut off or the same is so, too. -/
theorem compositional_below :
    Compositional fun walk walk' => ∀ s, (walk s).Below (walk' s) where
  done := fun _ _ => .refl _
  andThen := fun h hnext s => (h s).andThen fun x t => hnext x t

theorem resolveAt_below {content content' : Address → State → Walk Float}
    (hcontent : ∀ a s, (content a s).Below (content' a s)) (a : Address) (s : State) :
    (resolveAt content a s).Below (resolveAt content' a s) := by
  intro r t h
  rw [resolveAt_eq_done_iff] at h ⊢
  cases h with
  | kept hc hx => exact .kept hc hx
  | rewalked hc hx h => exact .rewalked hc hx (hcontent _ _ _ _ h)
  | cyclic hc hp => exact .cyclic hc hp
  | found hc hp h => exact .found hc hp (hcontent _ _ _ _ h)
  | failed hc hp h => exact .failed hc hp (hcontent _ _ _ _ h)

/-- **What ends within a depth ends the same within every greater one.** -/
theorem contentWithin_below (sheet : Sheet) : ∀ {depth depth' : Nat}, depth ≤ depth' →
    ∀ a s, (contentWithin sheet depth a s).Below (contentWithin sheet depth' a s)
  | 0, _, _, _, _ => nofun
  | depth + 1, 0, hle, _, _ => absurd hle (Nat.not_succ_le_zero depth)
  | depth + 1, depth' + 1, hle, a, s => by
    rw [contentWithin_succ, contentWithin_succ]
    cases sheet.formula a with
    | error e => exact .refl _
    | ok tokens =>
      have hcontent := contentWithin_below sheet (Nat.le_of_succ_le_succ hle)
      exact compositional_below.rel_evaluateWith (resolveAt_below hcontent) tokens s

/-! ## Walks from any state -/

/-- From every state on the path the walk ends, in a state on the path. -/
def EndsOn {α : Type} (path : List Address) (walk : State → Walk α) : Prop :=
  ∀ s, s.path = path → ∃ r t, walk s = .done r t ∧ t.path = path

theorem endsOn_done {α : Type} {path : List Address} (r : Except Fault α) :
    EndsOn path fun s => .done r s :=
  fun s hs => ⟨r, s, rfl, hs⟩

theorem EndsOn.andThen {α β : Type} {path : List Address} {walk : State → Walk α}
    {next : α → State → Walk β} (h : EndsOn path walk) (hnext : ∀ x, EndsOn path (next x)) :
    EndsOn path fun s => (walk s).andThen next := by
  intro s hs
  obtain ⟨r, t, hw, ht⟩ := h s hs
  cases r with
  | ok x =>
    obtain ⟨r', u, hw', hu⟩ := hnext x t ht
    exact ⟨r', u, by simp only [hw]; exact hw', hu⟩
  | error e => exact ⟨.error e, t, by simp only [hw]; rfl, ht⟩

theorem compositional_endsOn (path : List Address) :
    Compositional fun walk _ => EndsOn path walk where
  done := endsOn_done
  andThen := EndsOn.andThen

theorem evaluateWith_endsOn {path : List Address} {content : Address → State → Walk Float}
    (h : ∀ a, EndsOn path (resolveAt content a)) (tokens : List Token) :
    EndsOn path (evaluateWith content tokens) :=
  @Compositional.rel_evaluateWith _ content content (compositional_endsOn path) h tokens

/-- A cell that is walked from a new state nests at most two contents more than there are cells, its own
among them. -/
theorem exists_contentWithin_new {sheet : Sheet} {depth : Nat} (h : sheet.cellCount < depth)
    (a : Address) (policy : Policy) :
    ∃ r t, contentWithin sheet (depth + 1) a (State.new policy) = .done r t := by
  have henough : ∀ b, Needs sheet a b → Enough sheet [] depth b := fun _ _ =>
    Or.inr (by rwa [Sheet.unvisited_nil])
  obtain ⟨t, hw⟩ := contentWithin_new (resolveAt_comesTo sheet depth) a henough policy
  exact ⟨_, t, hw⟩

/-- **From any state on a path looking up a cell ends**, whatever is completed and kept in it. -/
theorem resolveAt_endsOn (sheet : Sheet) : ∀ (depth : Nat) (path : List Address) (a : Address),
    sheet.unvisited path + sheet.cellCount + 2 ≤ depth →
      EndsOn path (resolveAt (contentWithin sheet depth) a)
  | 0, _, _, hle => absurd hle (by omega)
  | depth + 1, path, a, hle => by
    intro s hs
    cases hc : s.isCompleted a with
    | true =>
      cases hx : s.cached? a with
      | some x => exact ⟨_, s, resolveAt_kept hc hx, hs⟩
      | none =>
        obtain ⟨r, t, hw⟩ :=
          exists_contentWithin_new (show sheet.cellCount < depth by omega) a s.policy
        exact ⟨r, s, resolveAt_rewalk hc hx hw, hs⟩
    | false =>
      cases hp : s.isInProgress a with
      | true => exact ⟨_, s, resolveAt_cyclic hc hp, hs⟩
      | false =>
        have ha : a ∉ path := by
          rw [← hs, ← State.isInProgress_iff_mem]
          exact Bool.eq_false_iff.mp hp
        have hcontent : EndsOn (a :: path) (contentWithin sheet (depth + 1) a) := by
          rw [show contentWithin sheet (depth + 1) a = _ from
            funext (contentWithin_succ sheet depth a)]
          cases hformula : sheet.formula a with
          | error e => exact endsOn_done _
          | ok tokens =>
            obtain ⟨raw, hraw⟩ := get?_of_formula hformula
            have hlt := Sheet.unvisited_cons_lt hraw ha
            refine evaluateWith_endsOn (fun b => ?_) tokens
            exact resolveAt_endsOn sheet depth (a :: path) b (by omega)
        obtain ⟨r, t, hw, ht⟩ := hcontent (s.enter a) (congrArg (a :: ·) hs)
        refine ⟨r, _, resolveAt_enter hc hp hw, ?_⟩
        have hleave : (t.leave a).path = path := by
          rw [State.leave, ht, List.erase_cons_head]
        cases r with
        | ok x => exact hleave
        | error e => exact hleave

/-! ## Calls -/

namespace Call

/-- What a call comes to with contents nested at most `depth` deep. -/
def walkWithin (sheet : Sheet) (depth : Nat) : Call → State → Walk Float
  | .resolve r, s => resolveWith (contentWithin sheet depth) r s
  | .evaluate tokens, s => evaluateWith (contentWithin sheet depth) tokens s
  | .evaluateCell raw, s =>
    match Content.classify raw with
    | .number x => .done (.ok x) s
    | .reference r => resolveWith (contentWithin sheet depth) r s
    | .expression tokens => evaluateWith (contentWithin sheet depth) tokens s
    | .other => evaluateWith (contentWithin sheet depth) (tokenize raw) s

variable {sheet : Sheet} {call : Call} {depth : Nat} {s t : State} {r : Except Fault Float}

theorem walkWithin_eq (sheet : Sheet) (depth : Nat) (call : Call) (s : State) :
    call.walkWithin sheet depth s = evaluateWith (contentWithin sheet depth) call.tokens s := by
  cases call with
  | resolve r => exact (evaluateWith_reference _ r s).symm
  | evaluate tokens => rfl
  | evaluateCell raw =>
    simp only [walkWithin, tokens]
    rcases classify_cases raw with ⟨x, ht, hc⟩ | ⟨r, ht, hc⟩ | hc | ⟨hc, -⟩
    · rw [hc, ht]
      rfl
    · rw [hc, ht]
      exact (evaluateWith_reference _ r s).symm
    · rw [hc]
    · rw [hc]

theorem walkWithin_of_le {depth' : Nat} (hle : depth ≤ depth')
    (h : call.walkWithin sheet depth s = .done r t) : call.walkWithin sheet depth' s = .done r t := by
  rw [walkWithin_eq] at h ⊢
  exact compositional_below.rel_evaluateWith (resolveAt_below (contentWithin_below sheet hle))
    call.tokens s r t h

/-- From any state a call ends within the depth that evaluations are given. -/
theorem exists_walkWithin_depthBound (sheet : Sheet) (call : Call) (s : State) :
    ∃ r t, call.walkWithin sheet (depthBound sheet) s = .done r t := by
  have hle : sheet.unvisited s.path + sheet.cellCount + 2 ≤ depthBound sheet := by
    have : sheet.unvisited s.path ≤ sheet.cellCount := by
      rw [← Sheet.length_cells]
      exact List.countP_le_length
    rw [depthBound]
    omega
  obtain ⟨r, t, hw, -⟩ := evaluateWith_endsOn
    (fun a => resolveAt_endsOn sheet (depthBound sheet) s.path a hle) call.tokens s rfl
  exact ⟨r, t, by rw [walkWithin_eq, hw]⟩

/-- Within whatever depth a call ends, it ends as it is run. -/
theorem run_of_walkWithin (h : call.walkWithin sheet depth s = .done r t) :
    call.run sheet s = (r, t) := by
  obtain ⟨r', t', hbound⟩ := exists_walkWithin_depthBound sheet call s
  have hsame := walkWithin_of_le (Nat.le_max_left depth (depthBound sheet)) h
  rw [walkWithin_of_le (Nat.le_max_right depth (depthBound sheet)) hbound] at hsame
  cases hsame
  rw [walkWithin_eq] at hbound
  rw [run_eq_evaluate, PostfixSheet.evaluate, hbound]
  rfl

/-- From a new state a call nests at most one content more than there are cells. -/
theorem exists_walkWithin_new (sheet : Sheet) (call : Call) (policy : Policy) :
    ∃ r t, call.walkWithin sheet (sheet.cellCount + 1) (State.new policy) = .done r t := by
  have h : ∀ a, Scanned (pathValue sheet []) call.tokens a →
      ComesTo (· = ·) (Sound sheet []) (resolveAt (contentWithin sheet (sheet.cellCount + 1)) a)
        (pathValue sheet [] a) := by
    intro a _
    refine resolveAt_comesTo sheet _ [] a (List.forall_mem_nil _) (Or.inr ?_)
    rw [Sheet.unvisited_nil]
    exact Nat.lt_succ_self _
  obtain ⟨_, hall⟩ := evaluateWith_comesTo (fun _ => rfl) h []
  obtain ⟨r, t, hw, -, -⟩ := hall _ (sound_new sheet policy)
  exact ⟨r, t, by rw [walkWithin_eq, hw]⟩

/-- **Every call ends, and contents nest linearly deep**: from a new state at most one more than there
are cells, and from any state whatsoever at most twice that. More depth never changes what a call comes
to, value, fault or state. -/
theorem walkWithin_ends (sheet : Sheet) (call : Call) :
    (∀ policy more, call.walkWithin sheet (sheet.cellCount + 1 + more) (State.new policy) =
        .done (call.run sheet (State.new policy)).1 (call.run sheet (State.new policy)).2) ∧
      ∀ s more, call.walkWithin sheet (2 * sheet.cellCount + 2 + more) s =
        .done (call.run sheet s).1 (call.run sheet s).2 := by
  refine ⟨fun policy more => ?_, fun s more => ?_⟩
  · obtain ⟨r, t, hw⟩ := exists_walkWithin_new sheet call policy
    rw [run_of_walkWithin hw]
    exact walkWithin_of_le (Nat.le_add_right _ _) hw
  · obtain ⟨r, t, hw⟩ := exists_walkWithin_depthBound sheet call s
    rw [run_of_walkWithin hw]
    exact walkWithin_of_le (Nat.le_add_right _ _) hw

/-- The only cell of a sheet refers to a cell outside, so that two contents nest. -/
example : (resolve ⟨"A1", some ⟨0, 0⟩⟩).walkWithin ⟨[["B1"]]⟩ 1 (State.new .cache) =
    .cutOff ⟨0, 1⟩ := rfl

end Call

end PostfixSheet
