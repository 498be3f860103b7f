import Rapidus.Parser.Language

/-! # Where the right grouping departs from the standard reading

Each level of `read_expression` groups its operators to the right, where the
standard reading groups them to the left. The two readings of a sequence of one
level agree when it has at most one operator, and differ as soon as it has two:
both readings of a sequence have the same size, and a tree never equals a proper
part of itself. So `read_expression` returns the standard reading of a line
expression exactly when no level of it chains two operators.
-/

namespace Rapidus.Parser

section Sequences

variable {α : Type} {readR readL : α → Node}

theorem groupLeft_append_singleton (read : α → Node) (acc : Node) (l : List (BinOp × α))
    (op : BinOp) (b : α) :
    groupLeft read acc (l ++ [(op, b)]) = .binaryOp (groupLeft read acc l) (read b) op := by
  induction l generalizing acc with
  | nil => rfl
  | cons p l ih =>
    obtain ⟨_, _⟩ := p
    exact ih _

theorem sizeOf_groupLeft_add (hsize : ∀ a, sizeOf (readR a) = sizeOf (readL a)) :
    ∀ (acc : Node) (a : α) (tail : List (BinOp × α)),
      sizeOf (groupLeft readL acc tail) + sizeOf (readR a) =
        sizeOf acc + sizeOf (groupRight readR a tail)
  | _, _, [] => rfl
  | acc, a, (op, b) :: tail => by
    have h := sizeOf_groupLeft_add hsize (.binaryOp acc (readL b) op) b tail
    rw [Node.binaryOp.sizeOf_spec] at h
    rw [groupLeft, groupRight, Node.binaryOp.sizeOf_spec]
    have := hsize b
    omega

theorem groupRight_eq_groupLeft_iff (hsize : ∀ a, sizeOf (readR a) = sizeOf (readL a)) :
    ∀ (a : α) (tail : List (BinOp × α)),
      groupRight readR a tail = groupLeft readL (readL a) tail ↔
        tail.length ≤ 1 ∧ readR a = readL a ∧ ∀ p ∈ tail, readR p.2 = readL p.2
  | a, [] => by simp [groupRight, groupLeft]
  | a, [(op, b)] => by simp [groupRight, groupLeft]
  | a, (op, b) :: (op', c) :: tail => by
    refine iff_of_false (fun h => ?_) (by simp)
    obtain ⟨l, ⟨opz, z⟩, hz⟩ : ∃ l z, (op', c) :: tail = l ++ [z] :=
      ⟨_, _, (List.dropLast_concat_getLast (List.cons_ne_nil _ _)).symm⟩
    rw [groupRight, hz, ← List.cons_append, groupLeft_append_singleton] at h
    -- the left operand of the right reading would be a proper part of the left reading
    have h₁ := congrArg sizeOf (Node.binaryOp.inj h).1
    have h₂ := sizeOf_groupLeft_add hsize (readL a) b ((op, b) :: l)
    rw [groupRight, Node.binaryOp.sizeOf_spec] at h₂
    have := hsize a
    omega

variable {opOf : Symbol → Option BinOp}

/-- A sequence of one level has at most one operator, and `P` holds of its operands. -/
def Chain.Short (P : α → Prop) (c : Chain opOf α) : Prop :=
  c.tail.length ≤ 1 ∧ P c.head ∧ ∀ p ∈ c.tail, P p.2

theorem Chain.short_congr {P Q : α → Prop} (h : ∀ a, P a ↔ Q a) (c : Chain opOf α) :
    c.Short P ↔ c.Short Q := by
  simp only [Chain.Short, h]

theorem Chain.sizeOf_groupRight_eq (hsize : ∀ a, sizeOf (readR a) = sizeOf (readL a))
    (c : Chain opOf α) : sizeOf (c.groupRight readR) = sizeOf (c.groupLeft readL) := by
  have := sizeOf_groupLeft_add hsize (readL c.head) c.head c.tail
  have := hsize c.head
  simp only [Chain.groupRight, Chain.groupLeft]
  omega

theorem Chain.groupRight_eq_groupLeft_iff (hsize : ∀ a, sizeOf (readR a) = sizeOf (readL a))
    (c : Chain opOf α) : c.groupRight readR = c.groupLeft readL ↔ c.Short fun a => readR a = readL a :=
  Parser.groupRight_eq_groupLeft_iff hsize c.head c.tail

end Sequences

/-- The standard reading of a line expression: every level grouped to the left. -/
def LineExpression.groupLeft (e : LineExpression) : Node :=
  Chain.groupLeft (Chain.groupLeft (Chain.groupLeft Primary.node)) e

def LineExpression.Short (e : LineExpression) : Prop :=
  Chain.Short (Chain.Short (Chain.Short fun _ => True)) e

theorem LineExpression.groupRight_eq_groupLeft_iff (e : LineExpression) :
    e.groupRight = e.groupLeft ↔ e.Short := by
  have hmul (c : Chain multiplicativeOp Primary) :
      c.groupRight Primary.node = c.groupLeft Primary.node ↔ c.Short fun _ => True :=
    (Chain.groupRight_eq_groupLeft_iff (fun _ => rfl) c).trans
      (Chain.short_congr (fun _ => iff_of_true rfl trivial) c)
  have hadd (c : Chain additiveOp (Chain multiplicativeOp Primary)) :
      c.groupRight (Chain.groupRight Primary.node) = c.groupLeft (Chain.groupLeft Primary.node) ↔
        c.Short (Chain.Short fun _ => True) :=
    (Chain.groupRight_eq_groupLeft_iff (Chain.sizeOf_groupRight_eq fun _ => rfl) c).trans
      (Chain.short_congr hmul c)
  exact (Chain.groupRight_eq_groupLeft_iff
    (Chain.sizeOf_groupRight_eq (Chain.sizeOf_groupRight_eq fun _ => rfl)) e).trans
      (Chain.short_congr hadd e)

/-- `read_expression` returns the standard reading of a line expression, every level grouped
to the left, exactly when no level of it chains two operators. -/
theorem readExpression_standard_iff (e : LineExpression) (t : Token) (rest : List Token) (n : Nat)
    (hn : e.tokens.length + 3 ≤ n) (ht : ExpressionStop (t :: rest)) :
    readExpression n (e.tokens ++ t :: rest) = .ok e.groupLeft (t :: rest) ↔ e.Short := by
  rw [readExpression_line e t rest n hn ht, ← e.groupRight_eq_groupLeft_iff]
  exact ⟨fun h => (EStateM.Result.ok.inj h).1, fun h => h ▸ rfl⟩

theorem readExpression_standard_iff_on_difference :
    ∃ e : LineExpression, e.tokens = [⟨.identifier "a"⟩, ⟨.symbol .sub⟩, ⟨.identifier "b"⟩] ∧
      e.tokens.length + 3 ≤ 6 ∧ ExpressionStop [⟨.lineTerminator⟩] ∧
      (readExpression 6 (e.tokens ++ [⟨.lineTerminator⟩]) = .ok e.groupLeft [⟨.lineTerminator⟩] ↔
        e.Short) :=
  have hs : ExpressionStop [⟨.lineTerminator⟩] := (expressionStop_cons _ _).mpr ⟨rfl, rfl, rfl⟩
  ⟨⟨⟨⟨⟨0, .identifier "a"⟩, [], List.forall_mem_nil _⟩,
      [(.sub, ⟨⟨0, .identifier "b"⟩, [], List.forall_mem_nil _⟩)], by decide⟩, [],
      List.forall_mem_nil _⟩,
    rfl, by decide, hs, readExpression_standard_iff _ _ _ 6 (by decide) hs⟩

end Rapidus.Parser
