import Mathlib.Data.List.Basic
import Mathlib.Data.List.Induction
import PostfixSheet.Formula.Postfix
import PostfixSheet.Proofs.Faults
import PostfixSheet.Proofs.Ranks

/-!
# Postfix order and trees

A tree of operators over numbers is written in postfix order as its left part, its right part and its
operator. The stack that evaluates a list of tokens holds the values of the trees that have been written
so far, the last one on top: a number begins a tree of its own, and an operator puts the last two together.
It goes on for as long as all trees have values, so that it stops at the end of the longest part from the
front that trees with values make up, and the token there says what is wrong with the list.

* `Tree` are the trees, `Tree.written` their tokens and `Tree.value` their values.
* `Stacked` says that a stack holds the values of trees.
* `Fronts` says of trees with values that they are written at the front of some tokens, and `Longest` that
  no such trees take up more of them.
* `Decided` says which result the trees at the front and the tokens behind them stand for.

Results:
* `readFrom_flatMap_written`, `flatMap_written_injective`: tokens are written by one list of trees at most.
* `Stacked.stackAfter`: trees with values leave these on the stack.
* `Stacked.push`: one token that is no fault makes one more tree, or one of two.
* `exists_longest`: the evaluation stops behind the longest part that is made up of trees.
* `decided_of_push_eq_error`: the token there decides the fault.
* `Decided.unique`: trees and tokens decide one result at most.
* `reduce_decided`: so the trees at the front and the token behind them decide what a list comes to.
-/

namespace PostfixSheet

/-- A number, or an operator with its left and its right operand. -/
inductive Tree where
  | leaf (x : Float)
  | node (op : Operator) (left right : Tree)

namespace Tree

/-- The tokens of a tree in postfix order. -/
def written : Tree → List Token
  | leaf x => [.number x]
  | node op left right => left.written ++ (right.written ++ [.operator op])

/-- The value of a tree; there is none if a division in it is by zero. -/
def value : Tree → Except Fault Float
  | leaf x => .ok x
  | node op left right => do
    let a ← left.value
    let b ← right.value
    op.apply a b

/-! ## Reading trees -/

/-- The trees that tokens write behind other trees, the last one first in both lists. -/
def readFrom : List Tree → List Token → Option (List Tree)
  | trees, [] => some trees
  | trees, .number x :: rest => readFrom (leaf x :: trees) rest
  | right :: left :: trees, .operator op :: rest => readFrom (node op left right :: trees) rest
  | _, _ => none

theorem readFrom_written (tree : Tree) (trees : List Tree) (rest : List Token) :
    readFrom trees (tree.written ++ rest) = readFrom (tree :: trees) rest := by
  induction tree generalizing trees rest with
  | leaf x => rfl
  | node op left right ihl ihr =>
    rw [written, List.append_assoc, List.append_assoc, ihl, ihr]
    rfl

/-- **What trees write is read as these trees.** -/
theorem readFrom_flatMap_written (trees before : List Tree) (rest : List Token) :
    readFrom before (trees.flatMap written ++ rest) = readFrom (trees.reverse ++ before) rest := by
  induction trees generalizing before with
  | nil => rfl
  | cons tree trees ih =>
    rw [List.flatMap_cons, List.append_assoc, readFrom_written, ih, List.reverse_cons,
      List.append_assoc, List.singleton_append]

/-- **Tokens are written by one list of trees at most.** -/
theorem flatMap_written_injective {trees others : List Tree}
    (h : trees.flatMap written = others.flatMap written) : trees = others := by
  have hread : ∀ trees : List Tree, readFrom [] (trees.flatMap written) = some trees.reverse := by
    intro trees
    have := readFrom_flatMap_written trees [] []
    rwa [List.append_nil, List.append_nil] at this
  have hreverse : some trees.reverse = some others.reverse := by rw [← hread, h, hread]
  exact List.reverse_injective (Option.some.inj hreverse)

end Tree

open Postfix

/-! ## Trees on the stack -/

/-- The stack holds the values of the trees, that of the last one on top. -/
inductive Stacked : List Tree → List Float → Prop
  | nil : Stacked [] []
  | concat {trees : List Tree} {stack : List Float} {tree : Tree} {x : Float}
      (h : Stacked trees stack) (hx : tree.value = .ok x) : Stacked (trees ++ [tree]) (x :: stack)

/-- All trees have values. -/
def Valued (trees : List Tree) : Prop := ∀ tree ∈ trees, ∃ x, tree.value = .ok x

variable {trees others : List Tree} {stack next : List Float} {token : Token}
  {tokens rest : List Token} {e : Fault}

/-- A tree with a value leaves it on the stack. -/
theorem stackAfter_written {tree : Tree} {x : Float} (hx : tree.value = .ok x)
    (stack : List Float) (rest : List Token) :
    stackAfter stack (tree.written ++ rest) = stackAfter (x :: stack) rest := by
  induction tree generalizing x stack rest with
  | leaf y =>
    cases hx
    rfl
  | node op left right ihl ihr =>
    obtain ⟨a, ha, hx⟩ := exists_of_bind_eq_ok hx
    obtain ⟨b, hb, hx⟩ := exists_of_bind_eq_ok hx
    have hpush : push (b :: a :: stack) (.operator op) = .ok (x :: stack) := by
      rw [push, hx]
      rfl
    rw [Tree.written, List.append_assoc, List.append_assoc, ihl ha, ihr hb, List.singleton_append,
      stackAfter, hpush]

namespace Stacked

theorem length_eq (h : Stacked trees stack) : trees.length = stack.length := by
  induction h with
  | nil => rfl
  | concat _ _ ih => rw [List.length_append, List.length_singleton, List.length_cons, ih]

theorem valued (h : Stacked trees stack) : Valued trees := by
  induction h with
  | nil => exact List.forall_mem_nil _
  | concat _ hx ih =>
    intro tree htree
    rcases List.mem_append.mp htree with htree | htree
    · exact ih tree htree
    · exact ⟨_, List.mem_singleton.mp htree ▸ hx⟩

/-- The value on top is that of the last tree. -/
theorem exists_of_cons {x : Float} (h : Stacked trees (x :: stack)) :
    ∃ below tree, trees = below ++ [tree] ∧ Stacked below stack ∧ tree.value = .ok x := by
  cases h with
  | concat h hx => exact ⟨_, _, rfl, h, hx⟩

/-- **Trees with values leave these on the stack**, whatever follows. -/
theorem stackAfter (h : Stacked trees stack) (rest : List Token) :
    Postfix.stackAfter [] (trees.flatMap Tree.written ++ rest) = Postfix.stackAfter stack rest := by
  induction h generalizing rest with
  | nil => rfl
  | concat _ hx ih =>
    rw [List.flatMap_append, List.append_assoc, ih, List.flatMap_singleton, stackAfter_written hx]

/-- **A token that is no fault** makes one tree more, or one tree of the last two. -/
theorem push (h : Stacked trees stack) (hpush : Postfix.push stack token = .ok next) :
    ∃ others, Stacked others next ∧
      others.flatMap Tree.written = trees.flatMap Tree.written ++ [token] := by
  cases token with
  | number x =>
    cases hpush
    exact ⟨trees ++ [.leaf x], h.concat rfl, by simp [Tree.written]⟩
  | operator op =>
    match stack with
    | [] => cases hpush
    | [b] => cases hpush
    | b :: a :: below =>
      obtain ⟨trees, right, rfl, h, hb⟩ := h.exists_of_cons
      obtain ⟨trees, left, rfl, h, ha⟩ := h.exists_of_cons
      cases hop : op.apply a b with
      | error f =>
        rw [Postfix.push, hop] at hpush
        cases hpush
      | ok x =>
        rw [Postfix.push, hop] at hpush
        cases hpush
        have hx : (Tree.node op left right).value = .ok x := by
          rw [Tree.value, ha, hb]
          exact hop
        exact ⟨trees ++ [.node op left right], h.concat hx, by simp [Tree.written]⟩
  | reference r => cases hpush
  | invalid text => cases hpush

end Stacked

/-- Trees with values are on some stack. -/
theorem exists_stacked (h : Valued trees) : ∃ stack, Stacked trees stack := by
  induction trees using List.reverseRecOn with
  | nil => exact ⟨[], .nil⟩
  | append_singleton trees tree ih =>
    obtain ⟨stack, hstack⟩ := ih fun t ht => h t (List.mem_append_left _ ht)
    obtain ⟨x, hx⟩ := h tree (List.mem_append_right _ (List.mem_singleton.mpr rfl))
    exact ⟨x :: stack, hstack.concat hx⟩

/-! ## The longest part that is made up of trees -/

/-- The trees have values and are written at the front of the tokens. -/
def Fronts (tokens : List Token) (trees : List Tree) : Prop :=
  Valued trees ∧ trees.flatMap Tree.written <+: tokens

/-- **No other trees with values take up more of the tokens.** -/
def Longest (tokens : List Token) (trees : List Tree) : Prop :=
  Fronts tokens trees ∧ ∀ others, Fronts tokens others →
    (others.flatMap Tree.written).length ≤ (trees.flatMap Tree.written).length

/-- There is one such list of trees at most. -/
theorem Longest.unique (h : Longest tokens trees) (h' : Longest tokens others) : others = trees := by
  refine Tree.flatMap_written_injective ?_
  have hlength := Nat.le_antisymm (h.2 others h'.1) (h'.2 trees h.1)
  exact (List.prefix_of_prefix_length_le h'.1.2 h.1.2 (Nat.le_of_eq hlength)).eq_of_length hlength

/-- No trees with values go on past a token that is a fault on the stack. -/
theorem longest_of_push_eq_error (h : Stacked trees stack)
    (he : Postfix.push stack token = .error e) :
    Longest (trees.flatMap Tree.written ++ token :: rest) trees := by
  refine ⟨⟨h.valued, List.prefix_append _ _⟩, ?_⟩
  rintro others ⟨hvalued, hfront⟩
  by_contra hlt
  -- the other trees would take up the faulty token as well
  have hfaulty : trees.flatMap Tree.written ++ [token] <+:
      trees.flatMap Tree.written ++ token :: rest :=
    List.prefix_append_right_inj _ |>.mpr (List.prefix_append [token] rest)
  have hpast : trees.flatMap Tree.written ++ [token] <+: others.flatMap Tree.written := by
    refine List.prefix_of_prefix_length_le hfaulty hfront ?_
    rw [List.length_append, List.length_singleton]
    omega
  obtain ⟨behind, hbehind⟩ := hpast
  obtain ⟨stack', hstack'⟩ := exists_stacked hvalued
  have hok := hstack'.stackAfter []
  rw [List.append_nil, ← hbehind, List.append_assoc, h.stackAfter, List.singleton_append] at hok
  simp only [Postfix.stackAfter, he] at hok
  cases hok

/-- **The evaluation stops behind the longest part that is made up of trees**, at the end of the tokens or
at a fault. -/
theorem exists_longest (h : Stacked trees stack) (rest : List Token) :
    ∃ found stack' behind, Stacked found stack' ∧
      trees.flatMap Tree.written ++ rest = found.flatMap Tree.written ++ behind ∧
      Longest (trees.flatMap Tree.written ++ rest) found ∧
      (behind = [] ∨ ∃ token more e, behind = token :: more ∧
        Postfix.push stack' token = .error e) := by
  induction rest generalizing trees stack with
  | nil =>
    refine ⟨trees, stack, [], h, rfl, ⟨⟨h.valued, List.prefix_append _ _⟩, ?_⟩, Or.inl rfl⟩
    rintro others ⟨-, hfront⟩
    rw [List.append_nil] at hfront
    exact hfront.length_le
  | cons token rest ih =>
    cases hpush : Postfix.push stack token with
    | error e =>
      exact ⟨trees, stack, token :: rest, h, rfl, longest_of_push_eq_error h hpush,
        Or.inr ⟨token, rest, e, rfl, hpush⟩⟩
    | ok next =>
      obtain ⟨others, hothers, hwritten⟩ := h.push hpush
      have hfound := ih hothers
      rwa [hwritten, List.append_assoc, List.singleton_append] at hfound

/-! ## What decides the result -/

/-- **What trees at the front of a list and the tokens behind them decide**: the result of the list. -/
inductive Decided : List Tree → List Token → Except Fault Float → Prop
  /-- One tree and nothing behind it is worth its value. -/
  | value {tree : Tree} {x : Float} (hx : tree.value = .ok x) : Decided [tree] [] (.ok x)
  /-- No tree or several, with nothing behind them, are as many values too few or too many. -/
  | malformed {trees : List Tree} (h : trees.length ≠ 1) :
      Decided trees [] (.error (.malformedExpression trees.length))
  /-- An operator behind fewer than two trees lacks operands. -/
  | underflow {trees : List Tree} (op : Operator) (more : List Token) (h : trees.length ≤ 1) :
      Decided trees (.operator op :: more) (.error (.stackUnderflow op))
  /-- A division behind two trees or more, of which the last one is worth zero, is by zero. -/
  | division (before : List Tree) (left : Tree) {right : Tree} {x : Float} (more : List Token)
      (hx : right.value = .ok x) (hzero : x = 0.0 ∨ x = -0.0) :
      Decided (before ++ [left, right]) (.operator .divide :: more) (.error .divisionByZero)
  /-- An invalid word is a fault wherever it stands. -/
  | invalid (trees : List Tree) (text : String) (more : List Token) :
      Decided trees (.invalid text :: more) (.error (.invalidToken text))
  /-- So is a reference, which is told by its name. -/
  | reference (trees : List Tree) (r : Reference) (more : List Token) :
      Decided trees (.reference r :: more) (.error (.invalidToken r.name))

/-- **They decide one result only.** -/
theorem Decided.unique {result result' : Except Fault Float} (h : Decided trees rest result)
    (h' : Decided trees rest result') : result' = result := by
  cases h with
  | @value tree x hx =>
    generalize hsame : [tree] = trees at h'
    cases h' with
    | value hx' =>
      cases hsame
      exact hx'.symm.trans hx
    | malformed hne => exact absurd (congrArg List.length hsame).symm hne
  | malformed hne =>
    cases h' with
    | value hx => exact absurd rfl hne
    | malformed _ => rfl
  | underflow op more hle =>
    cases h' with
    | underflow => rfl
    | division before left => simp at hle
  | division before left more hx hzero =>
    generalize hsame : before ++ [left, _] = trees at h'
    cases h' with
    | underflow op more hle =>
      rw [← hsame] at hle
      simp at hle
    | division => rfl
  | invalid text more =>
    cases h' with
    | invalid => rfl
  | reference r more =>
    cases h' with
    | reference => rfl

/-- The divisor of a faulty division is a zero of either sign. -/
theorem zero_of_apply_eq_error {op : Operator} {a b : Float} (h : op.apply a b = .error e) :
    b = 0.0 ∨ b = -0.0 := by
  obtain ⟨rfl, rfl⟩ := apply_eq_error h
  rw [Operator.apply] at h
  split at h
  · exact Binary64.beq_zero_iff.mp ‹_›
  · cases h

/-- The token at which the evaluation stops decides the fault. -/
theorem decided_of_push_eq_error (h : Stacked trees stack) (more : List Token)
    (he : Postfix.push stack token = .error e) : Decided trees (token :: more) (.error e) := by
  cases token with
  | number x => cases he
  | operator op =>
    match stack with
    | [] =>
      cases he
      exact .underflow op more (by simp [h.length_eq])
    | [b] =>
      cases he
      exact .underflow op more (by simp [h.length_eq])
    | b :: a :: below =>
      obtain ⟨trees, right, rfl, h, hb⟩ := h.exists_of_cons
      obtain ⟨trees, left, rfl, h, -⟩ := h.exists_of_cons
      cases hop : op.apply a b with
      | ok x =>
        rw [Postfix.push, hop] at he
        cases he
      | error f =>
        rw [Postfix.push, hop] at he
        cases he
        have hzero := zero_of_apply_eq_error hop
        obtain ⟨rfl, rfl⟩ := apply_eq_error hop
        rw [List.append_assoc]
        exact .division trees left more hb hzero
  | reference r =>
    cases he
    exact .reference trees r more
  | invalid text =>
    cases he
    exact .invalid trees text more

/-- At the end of the tokens the number of trees decides the result. -/
theorem decided_of_end (h : Stacked trees stack) : Decided trees [] (single stack) := by
  match stack with
  | [] =>
    have hlength := h.length_eq
    rw [single, ← hlength]
    · exact .malformed (by simp [hlength])
    · simp
  | [x] =>
    obtain ⟨below, tree, rfl, hbelow, hx⟩ := h.exists_of_cons
    cases hbelow
    exact .value hx
  | x :: y :: below =>
    have hlength := h.length_eq
    rw [single, ← hlength]
    · exact .malformed (by simp [hlength])
    · simp

/-- **Postfix order is what is accepted, and the first fault is what is told.** Every list of tokens has one
longest part from the front that is written by trees with values, and these trees are the only ones that
write it. They and the token behind them decide one result, which is what the list comes to. -/
theorem reduce_decided (tokens : List Token) :
    ∃ trees behind, tokens = trees.flatMap Tree.written ++ behind ∧ Longest tokens trees ∧
      (∀ others, Longest tokens others → others = trees) ∧
      ∀ result, Decided trees behind result ↔ reduce tokens = result := by
  obtain ⟨trees, stack, behind, hstack, htokens, hlongest, hend⟩ := exists_longest .nil tokens
  rw [List.flatMap_nil, List.nil_append] at htokens hlongest
  have hreduce : stackAfter [] tokens = stackAfter stack behind := by
    rw [htokens, hstack.stackAfter]
  have hdecided : Decided trees behind (reduce tokens) := by
    rw [reduce, hreduce]
    rcases hend with rfl | ⟨token, more, e, rfl, he⟩
    · exact decided_of_end hstack
    · rw [Postfix.stackAfter, he]
      exact decided_of_push_eq_error hstack more he
  refine ⟨trees, behind, htokens, hlongest, fun others => hlongest.unique, fun result => ⟨?_, ?_⟩⟩
  · exact fun h => h.unique hdecided
  · rintro rfl
    exact hdecided

end PostfixSheet
