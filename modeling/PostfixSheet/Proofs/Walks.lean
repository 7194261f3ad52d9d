import PostfixSheet.Evaluation.Walk
import PostfixSheet.Proofs.Values

/-!
# Walks that come to given values

What a walk over a sheet comes to follows from what it comes to at the cells that it looks up. The
states are sorted into classes. A walk *comes to* a result when it ends, from every class of states,
like the result, and in a class that the class it started from decides. With one class this is an
invariant of walks. With a class for each list of completed cells it also says that states of one
class are walked alike, whatever else is in them.

Results:
* `evaluateWith_comesTo`: a list of tokens comes to its value if all that it looks up does.
* `contentWithin_succ`: to evaluate the text of a cell is to evaluate its formula.
* `resolveAt_kept`, `resolveAt_rewalk`, `resolveAt_cyclic`, `resolveAt_enter`: the four ways to look
  up a cell, and `resolveAt_eq_done_iff` that there is no other.
* `contentWithin_comesTo`: the text of a cell comes to its value if all that it looks up does.
* `Compositional.rel_evaluateWith`: a relation of walks that goes through their composition goes through
  lists of tokens.
-/

namespace PostfixSheet

/-- From every class of states the walks end like `result`, and all in one class. -/
def ComesTo {α κ : Type} (same : Fault → Fault → Prop) (good : κ → State → Prop)
    (walk : State → Walk α) (result : Except Fault α) : Prop :=
  ∀ k, ∃ k', ∀ s, good k s → ∃ r t, walk s = .done r t ∧ Alike same r result ∧ good k' t

/-- A token with the value of its reference in its place. -/
def fillWith (content : Address → State → Walk Float) : Token → State → Walk Token
  | .reference r, s => (resolveWith content r s).andThen fun x t => .done (.ok (.number x)) t
  | token, s => .done (.ok token) s

section Tokens

variable (content : Address → State → Walk Float)

theorem substituteWith_cons (token : Token) (rest : List Token) (s : State) :
    substituteWith content (token :: rest) s =
      (fillWith content token s).andThen fun filled t =>
        (substituteWith content rest t).andThen fun numbers u =>
          .done (.ok (filled :: numbers)) u := by
  cases token with
  | reference r =>
    rw [fillWith, Walk.andThen_assoc]
    rfl
  | number x => rfl
  | operator op => rfl
  | invalid text => rfl

/-- A single reference is resolved. -/
theorem evaluateWith_reference (r : Reference) (s : State) :
    evaluateWith content [.reference r] s = resolveWith content r s := by
  simp only [evaluateWith, substituteWith]
  cases resolveWith content r s with
  | done result t => cases result <;> rfl
  | cutOff cell => rfl

end Tokens

/-- **To evaluate the text of a cell is to evaluate its formula.** -/
theorem contentWithin_succ (sheet : Sheet) (depth : Nat) (a : Address) (s : State) :
    contentWithin sheet (depth + 1) a s =
      match sheet.formula a with
      | .ok tokens => evaluateWith (contentWithin sheet depth) tokens s
      | .error e => .done (.error e) s := by
  simp only [contentWithin, Sheet.formula]
  cases sheet.get? a with
  | none => rfl
  | some raw =>
    rcases classify_cases raw with ⟨x, ht, hc⟩ | ⟨r, ht, hc⟩ | hc | ⟨hc, -⟩
    · simp only [hc, ht]
      rfl
    · simp only [hc, ht]
      exact (evaluateWith_reference _ r s).symm
    · simp only [hc]
      rfl
    · simp only [hc]
      rfl

/-! ## Looking up a cell -/

section LookUp

variable {content : Address → State → Walk Float} {a : Address} {s t : State}
  {result : Except Fault Float}

/-- A completed cell whose value was kept is read. -/
theorem resolveAt_kept {x : Float} (hc : s.isCompleted a = true) (hx : s.cached? a = some x) :
    resolveAt content a s = .done (.ok x) s := by
  simp only [resolveAt, hc, hx, if_true]

/-- A completed cell whose value was not kept is walked once more, and that walk is forgotten. -/
theorem resolveAt_rewalk (hc : s.isCompleted a = true) (hx : s.cached? a = none)
    (h : content a s.fresh = .done result t) : resolveAt content a s = .done result s := by
  simp only [resolveAt, hc, hx, h, if_true]

/-- A cell that is not completed and on the path is a circular reference. -/
theorem resolveAt_cyclic (hc : s.isCompleted a = false) (hp : s.isInProgress a = true) :
    resolveAt content a s = .done (.error (.cyclicReference a)) s := by
  simp [resolveAt, hc, hp]

/-- Any other cell is entered and left again, and completed if it has a value. -/
theorem resolveAt_enter (hc : s.isCompleted a = false) (hp : s.isInProgress a = false)
    (h : content a (s.enter a) = .done result t) :
    resolveAt content a s = .done result
      (match result with
        | .ok x => (t.leave a).complete a x
        | .error _ => t.leave a) := by
  simp only [resolveAt, hc, hp, h, Bool.false_eq_true, if_false]
  cases result <;> rfl

/-- How the lookup of a cell ends. -/
inductive LookedUp (content : Address → State → Walk Float) (a : Address) (s : State) :
    Except Fault Float → State → Prop
  | kept {x : Float} (hc : s.isCompleted a = true) (hx : s.cached? a = some x) :
      LookedUp content a s (.ok x) s
  | rewalked {result : Except Fault Float} {t : State} (hc : s.isCompleted a = true)
      (hx : s.cached? a = none) (h : content a s.fresh = .done result t) :
      LookedUp content a s result s
  | cyclic (hc : s.isCompleted a = false) (hp : s.isInProgress a = true) :
      LookedUp content a s (.error (.cyclicReference a)) s
  | found {x : Float} {t : State} (hc : s.isCompleted a = false) (hp : s.isInProgress a = false)
      (h : content a (s.enter a) = .done (.ok x) t) :
      LookedUp content a s (.ok x) ((t.leave a).complete a x)
  | failed {e : Fault} {t : State} (hc : s.isCompleted a = false) (hp : s.isInProgress a = false)
      (h : content a (s.enter a) = .done (.error e) t) : LookedUp content a s (.error e) (t.leave a)

/-- **There is no other way to look up a cell**, unless the walk is cut off. -/
theorem resolveAt_eq_done_iff :
    resolveAt content a s = .done result t ↔ LookedUp content a s result t := by
  constructor
  · intro h
    cases hc : s.isCompleted a with
    | true =>
      cases hx : s.cached? a with
      | some x =>
        rw [resolveAt_kept hc hx] at h
        cases h
        exact .kept hc hx
      | none =>
        cases hw : content a s.fresh with
        | done r u =>
          rw [resolveAt_rewalk hc hx hw] at h
          cases h
          exact .rewalked hc hx hw
        | cutOff cell => simp [resolveAt, hc, hx, hw] at h
    | false =>
      cases hp : s.isInProgress a with
      | true =>
        rw [resolveAt_cyclic hc hp] at h
        cases h
        exact .cyclic hc hp
      | false =>
        cases hw : content a (s.enter a) with
        | done r u =>
          rw [resolveAt_enter hc hp hw] at h
          cases r with
          | ok x =>
            cases h
            exact .found hc hp hw
          | error e =>
            cases h
            exact .failed hc hp hw
        | cutOff cell => simp [resolveAt, hc, hp, hw] at h
  · intro h
    cases h with
    | kept hc hx => exact resolveAt_kept hc hx
    | rewalked hc hx h => exact resolveAt_rewalk hc hx h
    | cyclic hc hp => exact resolveAt_cyclic hc hp
    | found hc hp h => exact resolveAt_enter hc hp h
    | failed hc hp h => exact resolveAt_enter hc hp h

end LookUp

/-! ## Coming to a value -/

section ComesTo

variable {α β κ : Type} {same : Fault → Fault → Prop} {good : κ → State → Prop}
  {value : Address → Except Fault Float} {content : Address → State → Walk Float}

theorem comesTo_done (hsame : ∀ e, same e e) (r : Except Fault α) :
    ComesTo same good (fun s => .done r s) r :=
  fun k => ⟨k, fun s hs => ⟨r, s, rfl, .refl hsame r, hs⟩⟩

/-- To come to the very result is to end with it. -/
theorem comesTo_eq_iff {walk : State → Walk α} {result : Except Fault α} :
    ComesTo (· = ·) good walk result ↔
      ∀ k, ∃ k', ∀ s, good k s → ∃ t, walk s = .done result t ∧ good k' t := by
  refine forall_congr' fun k => exists_congr fun k' => forall_congr' fun s => ?_
  refine imp_congr_right fun _ => ⟨?_, ?_⟩
  · rintro ⟨r, t, hw, hr, ht⟩
    exact ⟨t, hr.eq ▸ hw, ht⟩
  · rintro ⟨t, hw, ht⟩
    exact ⟨result, t, hw, .refl (fun _ => rfl) result, ht⟩

theorem ComesTo.andThen {walk : State → Walk α} {result : Except Fault α}
    {next : α → State → Walk β} {next' : α → Except Fault β} (h : ComesTo same good walk result)
    (hnext : ∀ x, result = .ok x → ComesTo same good (next x) (next' x)) :
    ComesTo same good (fun s => (walk s).andThen next) (result >>= next') := by
  intro k
  obtain ⟨k₁, h₁⟩ := h k
  cases result with
  | ok x =>
    obtain ⟨k₂, h₂⟩ := hnext x rfl k₁
    refine ⟨k₂, fun s hs => ?_⟩
    obtain ⟨r, t, hw, hr, ht⟩ := h₁ s hs
    cases hr
    obtain ⟨r', u, hw', hr', hu⟩ := h₂ t ht
    exact ⟨r', u, by simp only [hw]; exact hw', hr', hu⟩
  | error e =>
    refine ⟨k₁, fun s hs => ?_⟩
    obtain ⟨r, t, hw, hr, ht⟩ := h₁ s hs
    cases hr with
    | error he => exact ⟨_, t, by simp only [hw]; rfl, .error he, ht⟩

theorem resolveWith_comesTo (hsame : ∀ e, same e e) {r : Reference}
    (h : ∀ a, r.address = some a → ComesTo same good (resolveAt content a) (value a)) :
    ComesTo same good (resolveWith content r) (r.valueBy value) := by
  unfold resolveWith Reference.valueBy
  cases hr : r.address with
  | none => exact comesTo_done hsame _
  | some a => exact h a hr

theorem fillWith_comesTo (hsame : ∀ e, same e e) {token : Token}
    (h : ∀ a, token.target? = some a → ComesTo same good (resolveAt content a) (value a)) :
    ComesTo same good (fillWith content token) (token.fillBy value) := by
  cases token with
  | reference r =>
    exact (resolveWith_comesTo hsame h).andThen fun x _ =>
      comesTo_done hsame (.ok (Token.number x))
  | number x => exact comesTo_done hsame _
  | operator op => exact comesTo_done hsame _
  | invalid text => exact comesTo_done hsame _

theorem substituteWith_comesTo (hsame : ∀ e, same e e) {tokens : List Token}
    (h : ∀ a, Scanned value tokens a → ComesTo same good (resolveAt content a) (value a)) :
    ComesTo same good (substituteWith content tokens) (substituteBy value tokens) := by
  induction tokens with
  | nil => exact comesTo_done hsame _
  | cons token rest ih =>
    rw [show substituteWith content (token :: rest) = _ from
      funext (substituteWith_cons content token rest)]
    refine (fillWith_comesTo hsame fun a ha => h a (Or.inl ha)).andThen fun filled hf => ?_
    refine (ih fun a ha => h a (Or.inr ⟨⟨filled, hf⟩, ha⟩)).andThen fun numbers _ => ?_
    exact comesTo_done hsame (.ok (filled :: numbers))

/-- **A list of tokens comes to its value** if all that it looks up does. -/
theorem evaluateWith_comesTo (hsame : ∀ e, same e e) {tokens : List Token}
    (h : ∀ a, Scanned value tokens a → ComesTo same good (resolveAt content a) (value a)) :
    ComesTo same good (evaluateWith content tokens) (tokensBy value tokens) :=
  (substituteWith_comesTo hsame h).andThen fun numbers _ => comesTo_done hsame (reduce numbers)

/-- **The text of a cell comes to the value of the cell** if all that it looks up does. -/
theorem contentWithin_comesTo (hsame : ∀ e, same e e) {sheet : Sheet} {depth : Nat} {a : Address}
    (h : ∀ b, Scans value sheet a b →
      ComesTo same good (resolveAt (contentWithin sheet depth) b) (value b)) :
    ComesTo same good (contentWithin sheet (depth + 1) a) (cellBy value sheet a) := by
  rw [show contentWithin sheet (depth + 1) a = _ from
    funext (contentWithin_succ sheet depth a), cellBy_eq_bind]
  cases ht : sheet.formula a with
  | error e => exact comesTo_done hsame _
  | ok tokens => exact evaluateWith_comesTo hsame fun b hb => h b ⟨tokens, ht, hb⟩

end ComesTo

/-! ## Relations of walks -/

/-- A relation that what is put together from related walks respects. -/
structure Compositional (rel : {α : Type} → (State → Walk α) → (State → Walk α) → Prop) :
    Prop where
  done : ∀ {α : Type} (r : Except Fault α), rel (fun s => .done r s) fun s => .done r s
  andThen : ∀ {α β : Type} {walk walk' : State → Walk α} {next next' : α → State → Walk β},
    rel walk walk' → (∀ x, rel (next x) (next' x)) →
      rel (fun s => (walk s).andThen next) fun s => (walk' s).andThen next'

namespace Compositional

variable {rel : {α : Type} → (State → Walk α) → (State → Walk α) → Prop}
  {content content' : Address → State → Walk Float}

theorem rel_fillWith (hrel : Compositional rel)
    (h : ∀ a, rel (resolveAt content a) (resolveAt content' a)) (token : Token) :
    rel (fillWith content token) (fillWith content' token) := by
  cases token with
  | reference r =>
    have hr : rel (resolveWith content r) (resolveWith content' r) := by
      unfold resolveWith
      cases r.address with
      | none => exact hrel.done _
      | some a => exact h a
    exact hrel.andThen hr fun x => hrel.done (.ok (Token.number x))
  | number x => exact hrel.done _
  | operator op => exact hrel.done _
  | invalid text => exact hrel.done _

/-- **Lists of tokens are related** if the lookups of all cells are. -/
theorem rel_evaluateWith (hrel : Compositional rel)
    (h : ∀ a, rel (resolveAt content a) (resolveAt content' a)) (tokens : List Token) :
    rel (evaluateWith content tokens) (evaluateWith content' tokens) := by
  have hs : rel (substituteWith content tokens) (substituteWith content' tokens) := by
    induction tokens with
    | nil => exact hrel.done _
    | cons token rest ih =>
      have hcons : ∀ content, substituteWith content (token :: rest) = _ := fun content =>
        funext (substituteWith_cons content token rest)
      rw [hcons content, hcons content']
      refine hrel.andThen (hrel.rel_fillWith h token) fun filled => ?_
      exact hrel.andThen ih fun numbers => hrel.done (.ok (filled :: numbers))
  exact hrel.andThen hs fun numbers => hrel.done (reduce numbers)

end Compositional

end PostfixSheet
