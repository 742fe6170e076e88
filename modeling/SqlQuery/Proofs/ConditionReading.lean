import SqlQuery.Sql.Condition

/-!
# Reading conditions

The pieces of a condition are read by the precedence of SQL: NOT binds more tightly than AND, AND more
tightly than OR, and both connectives associate to the left. `Reading` is that grammar. `read` finds a
reading in one pass with a frame for each open parenthesis, and finds every reading there is
(`Reading.read_eq`), so that pieces have at most one.
-/

namespace SqlQuery.Sql

/-- A logical formula over atoms, which are texts. -/
inductive Formula where
  | atom (sql : String)
  | not (φ : Formula)
  | and (φ ψ : Formula)
  | or (φ ψ : Formula)

def Formula.eval (truth : String → Bool) : Formula → Bool
  | .atom sql => truth sql
  | .not φ => !φ.eval truth
  | .and φ ψ => φ.eval truth && ψ.eval truth
  | .or φ ψ => φ.eval truth || ψ.eval truth

namespace Piece

/-- The text of pieces in order. -/
def texts (ps : List Piece) : String := ps.foldr (fun piece rest => piece.text ++ rest) ""

@[simp] theorem texts_nil : texts [] = "" := rfl

@[simp] theorem texts_cons (p : Piece) (ps : List Piece) : texts (p :: ps) = p.text ++ texts ps := rfl

@[simp] theorem texts_append (ps qs : List Piece) : texts (ps ++ qs) = texts ps ++ texts qs := by
  induction ps with
  | nil => simp
  | cons p ps ih => simp [ih, String.append_assoc]

def leaf? : Piece → Option String
  | .leaf sql => some sql
  | _ => none

/-- The leaves among pieces. -/
def leaves (ps : List Piece) : List String := ps.filterMap leaf?

@[simp] theorem leaves_nil : leaves [] = [] := rfl

@[simp] theorem leaves_leaf (sql : String) (ps : List Piece) : leaves (.leaf sql :: ps) = sql :: leaves ps := rfl

@[simp] theorem leaves_parenOpen (ps : List Piece) : leaves (.parenOpen :: ps) = leaves ps := rfl

@[simp] theorem leaves_parenClose (ps : List Piece) : leaves (.parenClose :: ps) = leaves ps := rfl

@[simp] theorem leaves_not (ps : List Piece) : leaves (.not :: ps) = leaves ps := rfl

@[simp] theorem leaves_join (op : Connective) (ps : List Piece) : leaves (.join op :: ps) = leaves ps := rfl

@[simp] theorem leaves_append (ps qs : List Piece) : leaves (ps ++ qs) = leaves ps ++ leaves qs :=
  List.filterMap_append

end Piece

namespace Condition

theorem text_eq (c : Condition) : c.text = Piece.texts c.pieces := rfl

theorem text_leaf (sql : String) : (leaf sql).text = sql := by
  simp [text_eq, pieces, Piece.text]

theorem text_group (c : Condition) : (group c).text = "(" ++ c.text ++ ")" := by
  simp [text_eq, pieces, Piece.text, String.append_assoc]

theorem text_negation (c : Condition) : (negation c).text = "NOT (" ++ c.text ++ ")" := by
  have hpieces : (negation c).text = "NOT " ++ ("(" ++ (c.text ++ ")")) := by
    simp [text_eq, pieces, Piece.text]
  rw [hpieces, ← String.append_assoc, ← String.append_assoc]
  rfl

theorem text_chain (op : Connective) (cs : List Condition) :
    (chain op cs).text = Text.joinWith (Piece.join op).text (cs.map text) := by
  rw [text_eq, pieces]
  induction cs with
  | nil => rfl
  | cons c cs ih =>
    cases cs with
    | nil => rfl
    | cons c' cs =>
      rw [chainPieces, Piece.texts_append, Piece.texts_cons, ih, ← text_eq, ← String.append_assoc]
      rfl

end Condition

/-- The connectives that can stand outside of parentheses: none, AND, or both. -/
inductive Level where
  | operand | conjunction | disjunction

namespace Connective

/-- The level of what a connective makes. -/
def level : Connective → Level
  | .and => .conjunction
  | .or => .disjunction

def apply : Connective → Bool → Bool → Bool
  | .and, a, b => a && b
  | .or, a, b => a || b

end Connective

/-- The pieces are read as the formula. -/
inductive Reading : Level → List Piece → Formula → Prop where
  | leaf (sql : String) : Reading .operand [.leaf sql] (.atom sql)
  | parens {ps : List Piece} {φ : Formula} (h : Reading .disjunction ps φ) :
    Reading .operand (.parenOpen :: (ps ++ [.parenClose])) φ
  | not {ps : List Piece} {φ : Formula} (h : Reading .operand ps φ) : Reading .operand (.not :: ps) (.not φ)
  | conjunct {ps : List Piece} {φ : Formula} (h : Reading .operand ps φ) : Reading .conjunction ps φ
  | and {ps qs : List Piece} {φ ψ : Formula} (hp : Reading .conjunction ps φ) (hq : Reading .operand qs ψ) :
    Reading .conjunction (ps ++ .join .and :: qs) (.and φ ψ)
  | disjunct {ps : List Piece} {φ : Formula} (h : Reading .conjunction ps φ) : Reading .disjunction ps φ
  | or {ps qs : List Piece} {φ ψ : Formula} (hp : Reading .disjunction ps φ) (hq : Reading .conjunction qs ψ) :
    Reading .disjunction (ps ++ .join .or :: qs) (.or φ ψ)

/-! ### Reading in one pass -/

/-- What has been read since a parenthesis was opened: the alternatives before the last OR, the conjuncts
after it, and how many NOT wait for their operand. -/
structure Frame where
  alternatives : Option Formula
  conjuncts : Option Formula
  negations : Nat

namespace Frame

def empty : Frame := ⟨none, none, 0⟩

def negated : Nat → Formula → Formula
  | 0, φ => φ
  | n + 1, φ => negated n (.not φ)

/-- Puts an operand after what has been read. -/
def operand (top : Frame) (φ : Formula) : Frame :=
  let ψ := negated top.negations φ
  ⟨top.alternatives, some ((top.conjuncts.map (Formula.and · ψ)).getD ψ), 0⟩

/-- All that has been read, if it ends with an operand. -/
def total (top : Frame) : Option Formula :=
  top.conjuncts.map fun φ => (top.alternatives.map (Formula.or · φ)).getD φ

end Frame

/-- Reads pieces, with a frame for each parenthesis that is open around the current one. -/
def readIn (top : Frame) (outer : List Frame) : List Piece → Option Formula
  | [] => if outer.isEmpty then top.total else none
  | .leaf sql :: ps => readIn (top.operand (.atom sql)) outer ps
  | .not :: ps => readIn { top with negations := top.negations + 1 } outer ps
  | .join .and :: ps => readIn top outer ps
  | .join .or :: ps => readIn { top with alternatives := top.total, conjuncts := none } outer ps
  | .parenOpen :: ps => readIn .empty (top :: outer) ps
  | .parenClose :: ps =>
    match top.total, outer with
    | some φ, next :: outer => readIn (next.operand φ) outer ps
    | _, _ => none

/-- The formula of pieces. -/
def read (ps : List Piece) : Option Formula := readIn .empty [] ps

/-- Pieces in front of others are read as the formula, at each level from where it can start. -/
def Passes : Level → List Piece → Formula → Prop
  | .operand, ps, φ => ∀ top outer rest, readIn top outer (ps ++ rest) = readIn (top.operand φ) outer rest
  | .conjunction, ps, φ => ∀ alternatives outer rest,
    readIn ⟨alternatives, none, 0⟩ outer (ps ++ rest) = readIn ⟨alternatives, some φ, 0⟩ outer rest
  | .disjunction, ps, φ => ∃ alternatives conjuncts, Frame.total ⟨alternatives, conjuncts, 0⟩ = some φ ∧
    ∀ outer rest, readIn .empty outer (ps ++ rest) = readIn ⟨alternatives, conjuncts, 0⟩ outer rest

namespace Passes

variable {ps qs : List Piece} {φ ψ : Formula}

theorem parens (h : Passes .disjunction ps φ) : Passes .operand (.parenOpen :: (ps ++ [.parenClose])) φ := by
  obtain ⟨alternatives, conjuncts, htotal, hread⟩ := h
  intro top outer rest
  simp only [List.cons_append, List.append_assoc, readIn, hread, htotal, List.nil_append]

theorem conjunct (h : Passes .operand ps φ) : Passes .conjunction ps φ := by
  intro alternatives outer rest
  rw [h]
  rfl

theorem and (hp : Passes .conjunction ps φ) (hq : Passes .operand qs ψ) :
    Passes .conjunction (ps ++ .join .and :: qs) (.and φ ψ) := by
  intro alternatives outer rest
  rw [List.append_assoc, hp, List.cons_append, readIn, hq]
  rfl

theorem disjunct (h : Passes .conjunction ps φ) : Passes .disjunction ps φ :=
  ⟨none, some φ, rfl, fun outer rest => h none outer rest⟩

theorem or (hp : Passes .disjunction ps φ) (hq : Passes .conjunction qs ψ) :
    Passes .disjunction (ps ++ .join .or :: qs) (.or φ ψ) := by
  obtain ⟨alternatives, conjuncts, htotal, hread⟩ := hp
  refine ⟨some φ, some ψ, rfl, fun outer rest => ?_⟩
  rw [List.append_assoc, hread, List.cons_append, readIn, htotal, hq]

end Passes

namespace Reading

variable {ps qs : List Piece} {φ ψ : Formula}

theorem passes {level : Level} (h : Reading level ps φ) : Passes level ps φ := by
  induction h with
  | leaf sql => exact fun top outer rest => rfl
  | parens _ ih => exact ih.parens
  | not _ ih => exact fun top outer rest => ih { top with negations := top.negations + 1 } outer rest
  | conjunct _ ih => exact ih.conjunct
  | and _ _ ihp ihq => exact ihp.and ihq
  | disjunct _ ih => exact ih.disjunct
  | or _ _ ihp ihq => exact ihp.or ihq

theorem read_eq (h : Reading .disjunction ps φ) : read ps = some φ := by
  obtain ⟨alternatives, conjuncts, htotal, hread⟩ := h.passes
  have hall := hread [] []
  rw [List.append_nil] at hall
  exact hall.trans htotal

/-- A conjunction can be put in front of what a connective makes, though the grammar grows to the right. -/
theorem exists_join (op : Connective) (hp : Reading .conjunction ps φ) (hq : Reading op.level qs ψ) :
    ∃ χ, Reading op.level (ps ++ .join op :: qs) χ ∧
      ∀ truth, χ.eval truth = op.apply (φ.eval truth) (ψ.eval truth) := by
  generalize hlevel : op.level = level at hq
  induction hq with
  | leaf | parens | not => cases op <;> contradiction
  | conjunct hq _ =>
    cases op with
    | and => exact ⟨_, hp.and hq, fun _ => rfl⟩
    | or => contradiction
  | @and qs rs ψ ω _ hr ih _ =>
    cases op with
    | and =>
      obtain ⟨χ, hχ, heval⟩ := ih rfl
      refine ⟨.and χ ω, by simpa using hχ.and hr, fun truth => ?_⟩
      rw [Formula.eval, heval]
      exact Bool.and_assoc ..
    | or => contradiction
  | disjunct hq _ =>
    cases op with
    | and => contradiction
    | or => exact ⟨_, hp.disjunct.or hq, fun _ => rfl⟩
  | @or qs rs ψ ω _ hr ih _ =>
    cases op with
    | and => contradiction
    | or =>
      obtain ⟨χ, hχ, heval⟩ := ih rfl
      refine ⟨.or χ ω, by simpa using hχ.or hr, fun truth => ?_⟩
      rw [Formula.eval, heval]
      exact Bool.or_assoc ..

theorem unique (hp : Reading .disjunction ps φ) (hq : Reading .disjunction ps ψ) : φ = ψ :=
  Option.some.inj (hp.read_eq.symm.trans hq.read_eq)

end Reading

end SqlQuery.Sql
